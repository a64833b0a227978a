import SparkCache.Lib.Holdings
import SparkCache.Lib.Tiling
import SparkCache.RowStream.Planner

/-!
# The sessions of the snapshot planner

One coordinator plans the snapshots of several requests. Each request has a session of its own; the
bound on batches in flight is shared by all of them.
-/
namespace SparkCache.RowStream
open Store Tiling

/-- `StreamingSnapshotCoordinator(...)` -/
structure CoordinatorConfig extends Coordinator where
  maxSessions : ℕ
  positiveSessions : 0 < maxSessions

/-- A session of the table, with its digest. -/
structure TrackedSession where
  contextDigest : String
  session : Session

/-- A batch and the request it is for. -/
abbrev OwnedBatch := String × SnapshotBatch

/-- `_sessions` and `_digest_owner` -/
structure Sessions where
  sessions : Dictionary String TrackedSession
  digestOwner : Dictionary String String

namespace Sessions

def empty : Sessions := ⟨∅, ∅⟩

/-- The batches in flight, with their requests. -/
def pendingOf (requestId : String) (t : TrackedSession) : Multiset OwnedBatch :=
  (t.session.pending.map (requestId, ·) : List OwnedBatch)

def pending (s : Sessions) : Multiset OwnedBatch := s.sessions.holdings pendingOf

/-- `inflight_batches` -/
def inflightBatches (s : Sessions) : ℕ := s.sessions.total fun t => t.session.pending.length

/-- `_require_session` -/
def requireSession (s : Sessions) (requestId : String) : Except StoreError TrackedSession :=
  expect (s.sessions.lookup requestId) (.value "unknown snapshot request")

/-- `_retire` -/
def retire (s : Sessions) (requestId : String) (t : TrackedSession) : Sessions where
  sessions := s.sessions.erase requestId
  digestOwner :=
    if s.digestOwner.lookup t.contextDigest = some requestId then s.digestOwner.erase t.contextDigest
    else s.digestOwner

/-- `begin` -/
def begin (c : CoordinatorConfig) (s : Sessions) (requestId contextDigest : String) (spanTokens : ℕ) :
    Except StoreError (Bool × Sessions) := do
  require (requestId ≠ "" ∧ contextDigest ≠ "") (.value "request_id and context_digest are required")
  let session ← beginSession c.toCoordinator spanTokens
  match s.sessions.lookup requestId with
  | some existing =>
      require (existing.contextDigest = contextDigest ∧ existing.session.spanTokens = spanTokens)
        (.value "request_id already owns a different snapshot")
      return (decide (existing.session.state ≠ .aborted), s)
  | none =>
      if s.digestOwner.lookup contextDigest ≠ none ∨ c.maxSessions ≤ s.sessions.size then return (false, s)
      else
        return (true, ⟨s.sessions.insert requestId ⟨contextDigest, session⟩,
          s.digestOwner.insert contextDigest requestId⟩)

/-- What an offer returns: the new batches, or those that are given up. -/
structure Offered where
  batches : List SnapshotBatch
  aborted : Bool
  releaseBatches : List SnapshotBatch

/-- `offer_completed` -/
def offerCompleted (c : CoordinatorConfig) (s : Sessions) (requestId : String) (completedTokens : ℕ)
    (blocksFor : ℕ → ℕ → Except StoreError (List ℕ)) : Except StoreError (Offered × Sessions) := do
  let t ← s.requireSession requestId
  let others := inflightBatches ⟨s.sessions.erase requestId, s.digestOwner⟩
  let (session, offer) ← RowStream.offerCompleted c.toCoordinator t.session others completedTokens blocksFor
  if offer.aborted then return (⟨[], true, t.session.pending⟩, s.retire requestId t)
  else
    return (⟨offer.batches, false, []⟩, ⟨s.sessions.insert requestId ⟨t.contextDigest, session⟩, s.digestOwner⟩)

/-- `complete_batch` -/
def completeBatch (s : Sessions) (requestId : String) (batchIndex : ℕ) : Except StoreError (Bool × Sessions) := do
  let t ← s.requireSession requestId
  let session ← RowStream.completeBatch t.session batchIndex
  return (decide (session.nextToken = session.spanTokens ∧ session.pending = []),
    ⟨s.sessions.insert requestId ⟨t.contextDigest, session⟩, s.digestOwner⟩)

/-- `abort` -/
def abort (s : Sessions) (requestId : String) : List SnapshotBatch × Sessions :=
  match s.sessions.lookup requestId with
  | none => ([], s)
  | some t => (t.session.pending, s.retire requestId t)

/-- `commit` -/
def commit (s : Sessions) (requestId : String) : Except StoreError Sessions := do
  let t ← s.requireSession requestId
  require (t.session.state = .readyToCommit) (.value "snapshot is not ready to commit")
  return s.retire requestId t

end Sessions

/-! ## Runs -/

inductive SessionCall where
  | begin (requestId contextDigest : String) (spanTokens : ℕ)
  | offer (requestId : String) (completedTokens : ℕ) (blocksFor : ℕ → ℕ → Except StoreError (List ℕ))
  | complete (requestId : String) (batchIndex : ℕ)
  | abort (requestId : String)
  | commit (requestId : String)

/-- The coordinator, and what its callers have seen: the batches that each session has emitted, and
all the batches that were emitted, completed and returned. -/
structure Coordination where
  sessions : Sessions
  emittedBy : String → List SnapshotBatch
  emitted : Multiset OwnedBatch
  completed : Multiset OwnedBatch
  returned : Multiset OwnedBatch

namespace Coordination

def initial : Coordination := ⟨.empty, fun _ => [], 0, 0, 0⟩

def owned (requestId : String) (batches : List SnapshotBatch) : Multiset OwnedBatch :=
  (batches.map (requestId, ·) : List OwnedBatch)

/-- The pending batches of a request that have an index. -/
def numbered (s : Sessions) (requestId : String) (batchIndex : ℕ) : List SnapshotBatch :=
  match s.sessions.lookup requestId with
  | none => []
  | some t => t.session.pending.filter fun batch => batch.batchIndex = batchIndex

/-- One call; a call that raises returns nothing. -/
def step (c : CoordinatorConfig) (s : Coordination) : SessionCall → Coordination
  | .begin requestId contextDigest spanTokens =>
      match s.sessions.begin c requestId contextDigest spanTokens with
      | .error _ => s
      | .ok (_, sessions) =>
          { s with
            sessions := sessions
            emittedBy :=
              if s.sessions.sessions.lookup requestId = none then Function.update s.emittedBy requestId []
              else s.emittedBy }
  | .offer requestId completedTokens blocksFor =>
      match s.sessions.offerCompleted c requestId completedTokens blocksFor with
      | .error _ => s
      | .ok (offered, sessions) =>
          { s with
            sessions := sessions
            emittedBy := Function.update s.emittedBy requestId (s.emittedBy requestId ++ offered.batches)
            emitted := s.emitted + owned requestId offered.batches
            returned := s.returned + owned requestId offered.releaseBatches }
  | .complete requestId batchIndex =>
      match s.sessions.completeBatch requestId batchIndex with
      | .error _ => s
      | .ok (_, sessions) =>
          { s with
            sessions := sessions
            completed := s.completed + owned requestId (numbered s.sessions requestId batchIndex) }
  | .abort requestId =>
      { s with
        sessions := (s.sessions.abort requestId).2
        returned := s.returned + owned requestId (s.sessions.abort requestId).1 }
  | .commit requestId =>
      match s.sessions.commit requestId with
      | .error _ => s
      | .ok sessions => { s with sessions := sessions }

end Coordination

/-! ## One session -/

/-- Complete chunks, and no more than a batch holds. -/
structure SnapshotBatch.Bounded (c : Coordinator) (batch : SnapshotBatch) : Prop where
  startAligned : c.chunkTokens ∣ batch.logicalStart
  endAligned : c.chunkTokens ∣ batch.logicalEnd
  ordered : batch.logicalStart < batch.logicalEnd
  size : batch.logicalEnd ≤ batch.logicalStart + c.batchTokens

/-- A session that has emitted the batches is ready exactly when its whole span was emitted and completed. -/
structure Session.Sound (c : Coordinator) (s : Session) (emitted : List SnapshotBatch) : Prop where
  span : 0 < s.spanTokens ∧ c.chunkTokens ∣ s.spanTokens
  within : s.nextToken ≤ s.spanTokens
  aligned : c.chunkTokens ∣ s.nextToken
  tiles : Tiles SnapshotBatch.logicalStart SnapshotBatch.logicalEnd 0 emitted s.nextToken
  bounded : ∀ batch ∈ emitted, batch.Bounded c
  indexed : emitted.map SnapshotBatch.batchIndex = List.range s.nextBatchIndex
  pending : s.pending.Sublist emitted
  live : s.state ≠ .aborted
  ready : s.state = .readyToCommit ↔ s.nextToken = s.spanTokens ∧ s.pending = []

theorem beginSession_sound {c : Coordinator} {spanTokens : ℕ} {s : Session}
    (h : beginSession c spanTokens = .ok s) : s.Sound c [] ∧ s.pending = [] := by
  unfold beginSession at h
  simp only [Pages.bind_eq_ok, require_eq_ok] at h
  obtain ⟨_, ⟨hpos, hmod⟩, h⟩ := h
  cases h
  refine ⟨⟨⟨hpos, Nat.dvd_of_mod_eq_zero hmod⟩, Nat.zero_le _, Nat.dvd_zero _, rfl, ?_, rfl,
    List.Sublist.refl _, ?_, ?_⟩, rfl⟩
  · simp
  · simp
  · simp only [reduceCtorEq, false_iff, not_and]
    omega

/-- The mapped ranges lead to the end of the offer. -/
theorem mapRanges_tiles {c : Coordinator} {completeEnd : ℕ} {blocksFor : ℕ → ℕ → Except StoreError (List ℕ)}
    (haligned : c.chunkTokens ∣ completeEnd) (required : ℕ) :
    ∀ (index : ℕ) {cursor : ℕ} {mapped : List (ℕ × ℕ × List ℕ)},
      mapRanges blocksFor c.batchTokens completeEnd required cursor = .ok mapped → cursor ≤ completeEnd →
      completeEnd - cursor ≤ required * c.batchTokens → c.chunkTokens ∣ cursor →
      mapped.length ≤ required ∧
        Tiles SnapshotBatch.logicalStart SnapshotBatch.logicalEnd cursor (numberBatches index mapped) completeEnd ∧
        ∀ batch ∈ numberBatches index mapped, batch.Bounded c := by
  have hbatch : 0 < c.batchTokens := Nat.mul_pos c.positive.1 c.positive.2.1
  induction required with
  | zero =>
      intro index cursor mapped h hle hroom _
      cases h
      refine ⟨Nat.le_refl _, ?_, ?_⟩
      · show cursor = completeEnd
        omega
      · simp [numberBatches]
  | succ required ih =>
      intro index cursor mapped h hle hroom hcursor
      rw [mapRanges] at h
      by_cases hlt : cursor < completeEnd
      · rw [if_pos hlt] at h
        simp only [Pages.bind_eq_ok, require_eq_ok] at h
        obtain ⟨blocks, hblocks, _, -, rest, hrest, heq⟩ := h
        cases heq
        have hend : c.chunkTokens ∣ min (cursor + c.batchTokens) completeEnd := by
          obtain hmin | hmin := min_choice (cursor + c.batchTokens) completeEnd
          · rw [hmin]
            exact hcursor.add (Nat.dvd_mul_right _ _)
          · rw [hmin]
            exact haligned
        have hrest' : completeEnd - min (cursor + c.batchTokens) completeEnd ≤ required * c.batchTokens := by
          rw [Nat.succ_mul] at hroom
          omega
        obtain ⟨hlength, htiles, hbounded⟩ := ih (index + 1) hrest (min_le_right _ _) hrest' hend
        refine ⟨Nat.succ_le_succ hlength, ⟨rfl, ?_, htiles⟩, ?_⟩
        · show cursor ≤ min (cursor + c.batchTokens) completeEnd
          omega
        · rw [numberBatches, List.forall_mem_cons]
          refine ⟨⟨hcursor, hend, ?_, min_le_left _ _⟩, hbounded⟩
          show cursor < min (cursor + c.batchTokens) completeEnd
          omega
      · rw [if_neg hlt] at h
        cases h
        refine ⟨Nat.zero_le _, ?_, ?_⟩
        · show cursor = completeEnd
          omega
        · simp [numberBatches]

theorem numberBatches_length (mapped : List (ℕ × ℕ × List ℕ)) (index : ℕ) :
    (numberBatches index mapped).length = mapped.length := by
  induction mapped generalizing index with
  | nil => rfl
  | cons m rest ih => rw [numberBatches, List.length_cons, List.length_cons, ih]

theorem numberBatches_indexes (mapped : List (ℕ × ℕ × List ℕ)) (index : ℕ) :
    (numberBatches index mapped).map SnapshotBatch.batchIndex = List.range' index mapped.length := by
  induction mapped generalizing index with
  | nil => rfl
  | cons m rest ih => rw [numberBatches, List.map_cons, ih, List.length_cons, List.range'_succ]

/-- An offer gives the session up, or goes on with new batches within the bound. -/
theorem offerCompleted_spec {c : Coordinator} {s s' : Session} {others completedTokens : ℕ}
    {blocksFor : ℕ → ℕ → Except StoreError (List ℕ)} {offer : SnapshotOffer} {emitted : List SnapshotBatch}
    (hs : s.Sound c emitted) (hroom : others + s.pending.length ≤ c.maxInflightBatches)
    (h : RowStream.offerCompleted c s others completedTokens blocksFor = .ok (s', offer)) :
    offer.aborted = true ∨
      offer.aborted = false ∧ s'.Sound c (emitted ++ offer.batches) ∧ s'.pending = s.pending ++ offer.batches ∧
        others + s'.pending.length ≤ c.maxInflightBatches := by
  have hkept : s.Sound c (emitted ++ []) ∧ s.pending = s.pending ++ [] ∧
      others + s.pending.length ≤ c.maxInflightBatches := by
    rw [List.append_nil, List.append_nil]
    exact ⟨hs, rfl, hroom⟩
  unfold RowStream.offerCompleted at h
  split at h
  · cases h
    exact Or.inr ⟨rfl, hkept⟩
  rename_i hactive
  split at h
  · cases h
  dsimp only at h
  split at h
  · cases h
    exact Or.inr ⟨rfl, hkept⟩
  rename_i hmore
  split at h
  · cases h
    exact Or.inl rfl
  rename_i hfits
  split at h
  · cases h
    exact Or.inl rfl
  · rename_i mapped hmapped
    cases h
    refine Or.inr ⟨rfl, ?_⟩
    have hbatch : 0 < c.batchTokens := Nat.mul_pos c.positive.1 c.positive.2.1
    have haligned : c.chunkTokens ∣ min completedTokens s.spanTokens / c.chunkTokens * c.chunkTokens :=
      Nat.dvd_mul_left _ _
    have hwithin : min completedTokens s.spanTokens / c.chunkTokens * c.chunkTokens ≤ s.spanTokens :=
      (Nat.div_mul_le_self _ _).trans (min_le_right _ _)
    generalize min completedTokens s.spanTokens / c.chunkTokens * c.chunkTokens = completeEnd at *
    have hceil : completeEnd - s.nextToken ≤
        (completeEnd - s.nextToken + c.batchTokens - 1) / c.batchTokens * c.batchTokens := by
      have hsplit := Nat.div_add_mod (completeEnd - s.nextToken + c.batchTokens - 1) c.batchTokens
      have hmod := Nat.mod_lt (completeEnd - s.nextToken + c.batchTokens - 1) hbatch
      rw [Nat.mul_comm] at hsplit
      omega
    obtain ⟨hlength, htiles, hbounded⟩ :=
      mapRanges_tiles haligned _ s.nextBatchIndex hmapped (by omega) hceil hs.aligned
    have hne : numberBatches s.nextBatchIndex mapped ≠ [] := by
      intro hnil
      rw [hnil] at htiles
      have heq : s.nextToken = completeEnd := htiles
      omega
    refine ⟨⟨hs.span, hwithin, haligned, hs.tiles.append htiles, ?_, ?_, ?_, hs.live, ?_⟩, rfl, ?_⟩
    · intro batch hmem
      rcases List.mem_append.mp hmem with hmem | hmem
      · exact hs.bounded batch hmem
      · exact hbounded batch hmem
    · have hjoin := @List.range'_append_1 0 s.nextBatchIndex mapped.length
      rw [Nat.zero_add] at hjoin
      rw [List.map_append, hs.indexed, numberBatches_indexes, numberBatches_length, List.range_eq_range', hjoin,
        List.range_eq_range']
    · exact hs.pending.append (List.Sublist.refl _)
    · have hactive' : s.state = .active := not_not.mp hactive
      rw [hactive']
      simp [hne]
    · rw [List.length_append, numberBatches_length]
      omega

theorem offerCompleted_raises {c : Coordinator} {s : Session} {others completedTokens : ℕ}
    {f : ℕ → ℕ → Except StoreError (List ℕ)} :
    (∃ e, RowStream.offerCompleted c s others completedTokens f = .error e) ↔
      s.state = .active ∧ completedTokens < s.nextToken := by
  unfold RowStream.offerCompleted
  by_cases hactive : s.state = .active
  · rw [if_neg (not_not.mpr hactive)]
    by_cases hless : completedTokens < s.nextToken
    · simp [hactive, hless]
    · rw [if_neg hless]
      simp only [hless, and_false, iff_false, not_exists]
      intro e h
      split at h
      · cases h
      split at h
      · cases h
      split at h <;> cases h
  · rw [if_pos hactive]
    simp [hactive]

/-- A completion takes the batch of its index out of the pending ones. -/
theorem completeBatch_spec {c : Coordinator} {s s' : Session} {batchIndex : ℕ} {emitted : List SnapshotBatch}
    (hs : s.Sound c emitted) (h : RowStream.completeBatch s batchIndex = .ok s') :
    s'.Sound c emitted ∧ s'.pending.length ≤ s.pending.length ∧
      ((s.pending.filter fun batch => batch.batchIndex = batchIndex) ++ s'.pending).Perm s.pending := by
  unfold RowStream.completeBatch at h
  simp only [Pages.bind_eq_ok, require_eq_ok] at h
  obtain ⟨_, ⟨batch, hmem, -⟩, h⟩ := h
  have hactive : s.state ≠ .readyToCommit := by
    intro hready
    have hnone := (hs.ready.mp hready).2
    rw [hnone] at hmem
    cases hmem
  have hsub := (List.filter_sublist (p := fun b : SnapshotBatch => decide (b.batchIndex ≠ batchIndex)) (l := s.pending))
  have hperm : ((s.pending.filter fun b => b.batchIndex = batchIndex) ++
      s.pending.filter fun b => b.batchIndex ≠ batchIndex).Perm s.pending := by
    have := List.filter_append_perm (fun b : SnapshotBatch => decide (b.batchIndex = batchIndex)) s.pending
    simpa using this
  split at h
  · rename_i hdone
    cases h
    refine ⟨⟨hs.span, hs.within, hs.aligned, hs.tiles, hs.bounded, hs.indexed, hsub.trans hs.pending, ?_, ?_⟩,
      hsub.length_le, hperm⟩
    · simp
    · exact ⟨fun _ => hdone, fun _ => rfl⟩
  · rename_i hnot
    cases h
    refine ⟨⟨hs.span, hs.within, hs.aligned, hs.tiles, hs.bounded, hs.indexed, hsub.trans hs.pending, hs.live, ?_⟩,
      hsub.length_le, hperm⟩
    exact ⟨fun hready => absurd hready hactive, fun hdone => absurd hdone hnot⟩

/-! ## The table -/

namespace Sessions

/-- Every digest is owned by the session that plans it. -/
def Owned (s : Sessions) : Prop :=
  ∀ contextDigest requestId, s.digestOwner.lookup contextDigest = some requestId ↔
    ∃ t, s.sessions.lookup requestId = some t ∧ t.contextDigest = contextDigest

variable {s : Sessions} {requestId : String} {t : TrackedSession}

theorem Owned.retire (h : s.Owned) (hlookup : s.sessions.lookup requestId = some t) :
    (s.retire requestId t).Owned := by
  have hown : s.digestOwner.lookup t.contextDigest = some requestId := (h _ _).mpr ⟨t, hlookup, rfl⟩
  intro contextDigest other
  unfold Sessions.retire
  rw [if_pos hown]
  by_cases hdigest : contextDigest = t.contextDigest
  · rw [hdigest, AList.lookup_erase]
    constructor
    · intro hnone
      cases hnone
    · rintro ⟨t', hlookup', hsame⟩
      obtain ⟨hne, hlookup'⟩ := AList.lookup_erase_some hlookup'
      have hother := (h t.contextDigest other).mpr ⟨t', hlookup', hsame⟩
      rw [hown, Option.some.injEq] at hother
      exact absurd hother.symm hne
  · rw [AList.lookup_erase_ne hdigest, h]
    constructor
    · rintro ⟨t', hlookup', hsame⟩
      have hne : other ≠ requestId := by
        rintro rfl
        rw [hlookup, Option.some.injEq] at hlookup'
        rw [← hlookup'] at hsame
        exact hdigest hsame.symm
      exact ⟨t', by rw [AList.lookup_erase_ne hne]; exact hlookup', hsame⟩
    · rintro ⟨t', hlookup', hsame⟩
      exact ⟨t', (AList.lookup_erase_some hlookup').2, hsame⟩

theorem Owned.insert (h : s.Owned) (hlookup : s.sessions.lookup requestId = some t) (session : Session) :
    Owned ⟨s.sessions.insert requestId ⟨t.contextDigest, session⟩, s.digestOwner⟩ := by
  intro contextDigest other
  rw [h]
  by_cases hsame : other = requestId
  · rw [hsame, AList.lookup_insert, hlookup]
    simp
  · rw [AList.lookup_insert_ne hsame]

theorem Owned.begin (h : s.Owned) (hlookup : s.sessions.lookup requestId = none) {contextDigest : String}
    (hfree : s.digestOwner.lookup contextDigest = none) (session : Session) :
    Owned ⟨s.sessions.insert requestId ⟨contextDigest, session⟩, s.digestOwner.insert contextDigest requestId⟩ := by
  intro digest other
  dsimp only
  by_cases hother : other = requestId
  · rw [hother, AList.lookup_insert]
    by_cases hdigest : digest = contextDigest
    · rw [hdigest, AList.lookup_insert]
      simp
    · rw [AList.lookup_insert_ne hdigest, h, hlookup]
      simp [Ne.symm hdigest]
  · rw [AList.lookup_insert_ne hother]
    by_cases hdigest : digest = contextDigest
    · rw [hdigest, AList.lookup_insert, ← h, hfree]
      simp [Ne.symm hother]
    · rw [AList.lookup_insert_ne hdigest, h]

theorem retire_pending (hlookup : s.sessions.lookup requestId = some t) :
    s.pending = pendingOf requestId t + (s.retire requestId t).pending :=
  AList.holdings_of_lookup hlookup

theorem retire_inflight (hlookup : s.sessions.lookup requestId = some t) :
    s.inflightBatches = t.session.pending.length + (s.retire requestId t).inflightBatches :=
  AList.total_of_lookup _ hlookup

end Sessions

/-! ## Runs of the coordinator -/

namespace Coordination
variable {c : CoordinatorConfig} {s : Coordination} {requestId : String} {t : TrackedSession}
attribute [local simp] step

structure Holds (c : CoordinatorConfig) (s : Coordination) : Prop where
  sound : ∀ requestId t, s.sessions.sessions.lookup requestId = some t →
    t.session.Sound c.toCoordinator (s.emittedBy requestId)
  inflight : s.sessions.inflightBatches ≤ c.maxInflightBatches
  count : s.sessions.sessions.size ≤ c.maxSessions
  owners : s.sessions.Owned
  accounts : s.emitted = s.completed + s.returned + s.sessions.pending

theorem initial_holds (c : CoordinatorConfig) : initial.Holds c := by
  refine ⟨?_, Nat.zero_le _, Nat.zero_le _, ?_, rfl⟩
  · intro requestId t hlookup
    cases hlookup
  · intro contextDigest requestId
    constructor
    · intro hlookup
      cases hlookup
    · rintro ⟨t, hlookup, -⟩
      cases hlookup

/-- A session that ends leaves its pending batches to be accounted for. -/
theorem Holds.retire (h : s.Holds c) (hlookup : s.sessions.sessions.lookup requestId = some t)
    {returned : Multiset OwnedBatch} (hreturned : returned = s.returned + Sessions.pendingOf requestId t) :
    Holds c { s with sessions := s.sessions.retire requestId t, returned := returned } := by
  have hpending := Sessions.retire_pending hlookup
  have hinflight := Sessions.retire_inflight hlookup
  have hsize := AList.size_of_lookup hlookup
  refine ⟨fun other t' hlookup' => h.sound other t' (AList.lookup_erase_some hlookup').2, ?_, ?_,
    h.owners.retire hlookup, ?_⟩
  · have := h.inflight
    dsimp only
    omega
  · have := h.count
    show (s.sessions.sessions.erase requestId).size ≤ c.maxSessions
    omega
  · dsimp only
    rw [h.accounts, hpending, hreturned]
    abel

/-- A session that goes on. -/
theorem Holds.replace (h : s.Holds c) (hlookup : s.sessions.sessions.lookup requestId = some t) {session : Session}
    {batches : List SnapshotBatch} {completed : Multiset OwnedBatch}
    (hsound : session.Sound c.toCoordinator (s.emittedBy requestId ++ batches))
    (hroom : Sessions.inflightBatches ⟨s.sessions.sessions.erase requestId, s.sessions.digestOwner⟩ +
      session.pending.length ≤ c.maxInflightBatches)
    (haccounts : s.completed + Sessions.pendingOf requestId t + owned requestId batches =
      completed + owned requestId session.pending) :
    Holds c { s with
      sessions := ⟨s.sessions.sessions.insert requestId ⟨t.contextDigest, session⟩, s.sessions.digestOwner⟩
      emittedBy := Function.update s.emittedBy requestId (s.emittedBy requestId ++ batches)
      emitted := s.emitted + owned requestId batches
      completed := completed } := by
  refine ⟨?_, ?_, ?_, h.owners.insert hlookup session, ?_⟩
  · intro other t' hlookup'
    dsimp only at hlookup' ⊢
    obtain ⟨rfl, rfl⟩ | ⟨hne, hlookup'⟩ := AList.lookup_insert_some hlookup'
    · rw [Function.update_self]
      exact hsound
    · rw [Function.update_of_ne hne]
      exact h.sound other t' hlookup'
  · show (s.sessions.sessions.insert requestId ⟨t.contextDigest, session⟩).total _ ≤ _
    rw [AList.total_insert, Nat.add_comm]
    exact hroom
  · show (s.sessions.sessions.insert requestId ⟨t.contextDigest, session⟩).size ≤ _
    rw [AList.size_insert_of_lookup hlookup]
    exact h.count
  · have hpending : s.sessions.pending = Sessions.pendingOf requestId t +
        (s.sessions.sessions.erase requestId).holdings Sessions.pendingOf := AList.holdings_of_lookup hlookup
    show s.emitted + owned requestId batches = completed + s.returned +
      (s.sessions.sessions.insert requestId ⟨t.contextDigest, session⟩).holdings Sessions.pendingOf
    rw [AList.holdings_insert, h.accounts, hpending]
    calc s.completed + s.returned + (Sessions.pendingOf requestId t +
          (s.sessions.sessions.erase requestId).holdings Sessions.pendingOf) + owned requestId batches
        = (s.completed + Sessions.pendingOf requestId t + owned requestId batches) + s.returned +
          (s.sessions.sessions.erase requestId).holdings Sessions.pendingOf := by abel
      _ = (completed + owned requestId session.pending) + s.returned +
          (s.sessions.sessions.erase requestId).holdings Sessions.pendingOf := by rw [haccounts]
      _ = completed + s.returned + (owned requestId session.pending +
          (s.sessions.sessions.erase requestId).holdings Sessions.pendingOf) := by abel

theorem requireSession_eq_ok {s : Sessions} {requestId : String} {t : TrackedSession} :
    s.requireSession requestId = .ok t ↔ s.sessions.lookup requestId = some t :=
  expect_eq_ok

theorem Holds.begin (h : s.Holds c) (requestId contextDigest : String) (spanTokens : ℕ) :
    (step c s (.begin requestId contextDigest spanTokens)).Holds c := by
  rw [step]
  split
  · exact h
  rename_i started sessions hbegin
  unfold Sessions.begin at hbegin
  simp only [Pages.bind_eq_ok] at hbegin
  obtain ⟨_, -, session, hsession, hbegin⟩ := hbegin
  cases hlookup : s.sessions.sessions.lookup requestId with
  | some existing =>
      simp only [hlookup, Pages.bind_eq_ok] at hbegin
      obtain ⟨_, -, hbegin⟩ := hbegin
      cases hbegin
      rw [if_neg (by simp)]
      exact h
  | none =>
      simp only [hlookup] at hbegin
      rw [if_pos rfl]
      have hunseen : ∀ other t', s.sessions.sessions.lookup other = some t' → other ≠ requestId := by
        rintro other t' hother rfl
        rw [hlookup] at hother
        cases hother
      split at hbegin
      · cases hbegin
        refine ⟨fun other t' hother => ?_, h.inflight, h.count, h.owners, h.accounts⟩
        dsimp only
        rw [Function.update_of_ne (hunseen other t' hother)]
        exact h.sound other t' hother
      · rename_i hroom
        cases hbegin
        rw [not_or, not_not] at hroom
        obtain ⟨hsound, hpending⟩ := beginSession_sound hsession
        refine ⟨?_, ?_, ?_, h.owners.begin hlookup hroom.1 session, ?_⟩
        · intro other t' hother
          dsimp only
          obtain ⟨rfl, rfl⟩ | ⟨hne, hother⟩ := AList.lookup_insert_some hother
          · rw [Function.update_self]
            exact hsound
          · rw [Function.update_of_ne hne]
            exact h.sound other t' hother
        · show (s.sessions.sessions.insert requestId ⟨contextDigest, session⟩).total _ ≤ _
          rw [AList.total_insert_of_none _ hlookup]
          simp only [hpending, List.length_nil, Nat.add_zero]
          exact h.inflight
        · show (s.sessions.sessions.insert requestId ⟨contextDigest, session⟩).size ≤ _
          rw [AList.size_insert_of_none hlookup]
          omega
        · show s.emitted = s.completed + s.returned +
            (s.sessions.sessions.insert requestId ⟨contextDigest, session⟩).holdings Sessions.pendingOf
          rw [AList.holdings_insert_of_none hlookup]
          simp only [Sessions.pendingOf, hpending, List.map_nil, Multiset.coe_nil, zero_add]
          exact h.accounts

theorem Holds.offer (h : s.Holds c) (requestId : String) (completedTokens : ℕ)
    (blocksFor : ℕ → ℕ → Except StoreError (List ℕ)) :
    (step c s (.offer requestId completedTokens blocksFor)).Holds c := by
  rw [step]
  split
  · exact h
  rename_i offered sessions hoffer
  unfold Sessions.offerCompleted at hoffer
  simp only [Pages.bind_eq_ok, requireSession_eq_ok] at hoffer
  obtain ⟨t, hlookup, ⟨session, offer⟩, hsession, hoffer⟩ := hoffer
  have hroom : Sessions.inflightBatches ⟨s.sessions.sessions.erase requestId, s.sessions.digestOwner⟩ +
      t.session.pending.length ≤ c.maxInflightBatches := by
    have hinflight := h.inflight
    rw [Sessions.inflightBatches, AList.total_of_lookup _ hlookup, Nat.add_comm] at hinflight
    exact hinflight
  obtain haborted | ⟨hon, hsound, hpending, hroom'⟩ :=
    offerCompleted_spec (h.sound requestId t hlookup) hroom hsession
  · rw [haborted, if_pos rfl] at hoffer
    cases hoffer
    have hretire := h.retire hlookup rfl
    refine ⟨fun other t' hother => ?_, hretire.inflight, hretire.count, hretire.owners, ?_⟩
    · have hne : other ≠ requestId := (AList.lookup_erase_some hother).1
      dsimp only
      rw [Function.update_of_ne hne]
      exact hretire.sound other t' hother
    · show s.emitted + 0 = _
      rw [add_zero]
      exact hretire.accounts
  · rw [hon, if_neg Bool.false_ne_true] at hoffer
    cases hoffer
    have hreplace := @Holds.replace c s requestId t h hlookup session offer.batches s.completed hsound hroom' (by
      rw [hpending, owned, owned, Sessions.pendingOf, List.map_append, ← Multiset.coe_add]
      abel)
    refine ⟨hreplace.sound, hreplace.inflight, hreplace.count, hreplace.owners, ?_⟩
    show s.emitted + owned requestId offer.batches = s.completed + (s.returned + 0) + _
    rw [add_zero]
    exact hreplace.accounts

theorem Holds.complete (h : s.Holds c) (requestId : String) (batchIndex : ℕ) :
    (step c s (.complete requestId batchIndex)).Holds c := by
  rw [step]
  split
  · exact h
  rename_i ready sessions hcomplete
  unfold Sessions.completeBatch at hcomplete
  simp only [Pages.bind_eq_ok, requireSession_eq_ok] at hcomplete
  obtain ⟨t, hlookup, session, hsession, hcomplete⟩ := hcomplete
  cases hcomplete
  obtain ⟨hsound, hlength, hperm⟩ := completeBatch_spec (h.sound requestId t hlookup) hsession
  have hroom : Sessions.inflightBatches ⟨s.sessions.sessions.erase requestId, s.sessions.digestOwner⟩ +
      session.pending.length ≤ c.maxInflightBatches := by
    have hinflight := h.inflight
    rw [Sessions.inflightBatches, AList.total_of_lookup _ hlookup, Nat.add_comm] at hinflight
    exact (Nat.add_le_add_left hlength _).trans hinflight
  have hreplace := @Holds.replace c s requestId t h hlookup session []
    (s.completed + owned requestId (numbered s.sessions requestId batchIndex))
    (by rw [List.append_nil]; exact hsound) hroom (by
      have hsplit := Multiset.coe_eq_coe.mpr (hperm.map (requestId, ·))
      rw [List.map_append, ← Multiset.coe_add] at hsplit
      simp only [numbered, hlookup, owned, Sessions.pendingOf, List.map_nil, Multiset.coe_nil, add_zero]
      rw [← hsplit, add_assoc])
  refine ⟨fun other t' hother => ?_, hreplace.inflight, hreplace.count, hreplace.owners, ?_⟩
  · have hkept := hreplace.sound other t' hother
    rw [List.append_nil, Function.update_eq_self] at hkept
    exact hkept
  · have hkept := hreplace.accounts
    simp only [owned, List.map_nil, Multiset.coe_nil, add_zero] at hkept
    exact hkept

theorem Holds.abort (h : s.Holds c) (requestId : String) : (step c s (.abort requestId)).Holds c := by
  rw [step, Sessions.abort]
  split
  · refine ⟨h.sound, h.inflight, h.count, h.owners, ?_⟩
    show s.emitted = s.completed + (s.returned + 0) + s.sessions.pending
    rw [add_zero]
    exact h.accounts
  · rename_i t hlookup
    exact h.retire hlookup rfl

theorem Holds.commit (h : s.Holds c) (requestId : String) : (step c s (.commit requestId)).Holds c := by
  rw [step]
  split
  · exact h
  rename_i sessions hcommit
  unfold Sessions.commit at hcommit
  simp only [Pages.bind_eq_ok, requireSession_eq_ok, require_eq_ok] at hcommit
  obtain ⟨t, hlookup, _, hready, hcommit⟩ := hcommit
  cases hcommit
  have hnone := ((h.sound requestId t hlookup).ready.mp hready).2
  refine h.retire hlookup ?_
  rw [Sessions.pendingOf, hnone, List.map_nil, Multiset.coe_nil, add_zero]

theorem Holds.step (h : s.Holds c) (call : SessionCall) : (s.step c call).Holds c := by
  cases call with
  | begin requestId contextDigest spanTokens => exact h.begin requestId contextDigest spanTokens
  | offer requestId completedTokens blocksFor => exact h.offer requestId completedTokens blocksFor
  | complete requestId batchIndex => exact h.complete requestId batchIndex
  | abort requestId => exact h.abort requestId
  | commit requestId => exact h.commit requestId

/-- What raises from an offer: there is no session, or fewer tokens are complete than were emitted. -/
theorem offer_raises {s : Sessions} {completedTokens : ℕ} {blocksFor : ℕ → ℕ → Except StoreError (List ℕ)} :
    (∃ e, s.offerCompleted c requestId completedTokens blocksFor = .error e) ↔
      ∀ t, s.sessions.lookup requestId = some t → t.session.state = .active ∧ completedTokens < t.session.nextToken := by
  unfold Sessions.offerCompleted Sessions.requireSession expect
  cases hlookup : s.sessions.lookup requestId with
  | none => simp [bind, Except.bind]
  | some t =>
      have hraises := @offerCompleted_raises c.toCoordinator t.session
        (Sessions.inflightBatches ⟨s.sessions.erase requestId, s.digestOwner⟩) completedTokens blocksFor
      simp only [bind, Except.bind, Option.some.injEq, forall_eq', ← hraises]
      cases RowStream.offerCompleted c.toCoordinator t.session
        (Sessions.inflightBatches ⟨s.sessions.erase requestId, s.digestOwner⟩) completedTokens blocksFor with
      | error e => simp
      | ok result =>
          dsimp only
          split <;> simp [pure, Except.pure]

/-- Whatever is called, the batches of every session tile its tokens, the bounds hold, every batch is
accounted for once, and the digests are owned by the sessions; an offer that raises changes nothing. -/
theorem coordination_sound (c : CoordinatorConfig) (calls : List SessionCall) :
    let s := Run.exec (step c) initial calls
    (∀ requestId t, s.sessions.sessions.lookup requestId = some t →
      Tiles SnapshotBatch.logicalStart SnapshotBatch.logicalEnd 0 (s.emittedBy requestId) t.session.nextToken ∧
        (s.emittedBy requestId).map SnapshotBatch.batchIndex = List.range t.session.nextBatchIndex ∧
        (∀ batch ∈ s.emittedBy requestId, batch.Bounded c.toCoordinator) ∧
        t.session.pending.Sublist (s.emittedBy requestId) ∧
        (t.session.state = .readyToCommit ↔ t.session.nextToken = t.session.spanTokens ∧ t.session.pending = [])) ∧
    s.sessions.inflightBatches ≤ c.maxInflightBatches ∧
    s.emitted = s.completed + s.returned + s.sessions.pending ∧
    (∀ contextDigest requestId, s.sessions.digestOwner.lookup contextDigest = some requestId ↔
      ∃ t, s.sessions.sessions.lookup requestId = some t ∧ t.contextDigest = contextDigest) ∧
    ∀ requestId completedTokens blocksFor,
      (∃ e, s.sessions.offerCompleted c requestId completedTokens blocksFor = .error e) →
        step c s (.offer requestId completedTokens blocksFor) = s := by
  have h : (Run.exec (step c) initial calls).Holds c :=
    Run.invariant (fun s call hs => hs.step call) (initial_holds c) calls
  refine ⟨fun requestId t hlookup => ?_, h.inflight, h.accounts, h.owners, ?_⟩
  · have hsound := h.sound requestId t hlookup
    exact ⟨hsound.tiles, hsound.indexed, hsound.bounded, hsound.pending, hsound.ready⟩
  · rintro requestId completedTokens blocksFor ⟨e, herror⟩
    rw [step, herror]

end Coordination

end SparkCache.RowStream
