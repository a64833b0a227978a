import SparkCache.Replication.Receiver

/-!
# What one delivered frame does to the receiver

Every handler either leaves the tables alone, drops a transaction, refreshes or
extends the frame's own transaction, opens one, or records a commit. The
invariants of the receiver are proved from this list and not from the handlers.
-/
namespace SparkCache.Replication.Receiver
variable {Time : Type*} (cfg : ReceiverConfig Time)

/-- A PUT_CHUNK that reaches the callback and the staging check. -/
structure PutsNewChunk (s : Receiver Time) (d : Delivery Time) (t : ReceiveTransaction Time)
    (index : ℕ) (digest : Digest) : Prop where
  fields_eq : d.frame.fields = .putChunk index digest
  active : s.active.lookup d.frame.key = some t
  sequence_new : t.sequences.lookup d.frame.sequence = none
  payload_hash : sha256 d.frame.payload = digest
  index_new : t.chunks.lookup index = none
  fits : t.chunks.size + 1 ≤ cfg.maxContextChunks

/-- A COMMIT that reaches the publication callback. -/
structure Commits (s : Receiver Time) (d : Delivery Time) (t : ReceiveTransaction Time)
    (manifestDigest : Digest) (count : ℕ+) (record : CommitRecord) : Prop where
  fields_eq : d.frame.fields = .commit manifestDigest count
  uncommitted : s.committed.lookup d.frame.key = none
  active : s.active.lookup d.frame.key = some t
  payload_hash : sha256 d.frame.payload = manifestDigest
  decoded : decodeCommitRecord d.frame.payload = .ok record
  record_matches : recordMatches t record count = true

/-- The chunk entered in its transaction. -/
def stagedTransaction (d : Delivery Time) (t : ReceiveTransaction Time) (index : ℕ)
    (digest fingerprint : Digest) : ReceiveTransaction Time :=
  { t with
    chunks := t.chunks.insert index (stagedEntry cfg d.frame digest)
    sequences := t.sequences.insert d.frame.sequence fingerprint
    lastActivity := d.stamp }

inductive Effect (s : Receiver Time) (d : Delivery Time) : Receiver Time → Prop
  | unchanged : Effect s d s
  | discarded : Effect s d (s.discard d.frame.key)
  | superseded (contextDigest identityDigest : Digest)
      (hfields : d.frame.fields = .begin contextDigest identityDigest)
      (huncommitted : s.committed.lookup d.frame.key = none)
      (hnew : s.active.lookup d.frame.key = none)
      (hfull : cfg.maxActiveTransactions ≤
          (s.supersede d.frame.transactionId d.frame.generation).activeTransactions ∨
        ∀ encoded, d.frame.encode ≠ .ok encoded) :
      Effect s d (s.supersede d.frame.transactionId d.frame.generation)
  | touched (t : ReceiveTransaction Time) (h : s.active.lookup d.frame.key = some t) :
      Effect s d (s.touch d.frame.key t d.stamp)
  | opened (contextDigest identityDigest : Digest) (encoded : Bytes)
      (hfields : d.frame.fields = .begin contextDigest identityDigest)
      (huncommitted : s.committed.lookup d.frame.key = none)
      (hnew : s.active.lookup d.frame.key = none)
      (hroom : (s.supersede d.frame.transactionId d.frame.generation).activeTransactions <
        cfg.maxActiveTransactions)
      (hencode : d.frame.encode = .ok encoded) :
      Effect s d (((s.supersede d.frame.transactionId d.frame.generation).store d.frame.key
        (openTransaction d.frame contextDigest identityDigest d.stamp (sha256 encoded))
        ).rememberGeneration cfg d.frame.transactionId d.frame.generation)
  | staged (t : ReceiveTransaction Time) (index : ℕ) (digest fingerprint : Digest)
      (h : PutsNewChunk cfg s d t index digest)
      (hbytes : s.stagedBytes + (stagedEntry cfg d.frame digest).stagedBytes ≤
        cfg.maxStagedBytes)
      (hchunks : s.stagedChunks + (stagedEntry cfg d.frame digest).stagedChunks ≤
        cfg.maxStagedChunks) :
      Effect s d ((s.log (chunkCall cfg d.frame t index digest)).store d.frame.key
        (stagedTransaction cfg d t index digest fingerprint))
  | unstaged (t : ReceiveTransaction Time) (index : ℕ) (digest : Digest)
      (h : PutsNewChunk cfg s d t index digest) :
      Effect s d ((s.log (chunkCall cfg d.frame t index digest)).discard d.frame.key)
  | committed (t : ReceiveTransaction Time) (manifestDigest : Digest) (count : ℕ+)
      (record : CommitRecord) (h : Commits s d t manifestDigest count record) :
      Effect s d ((s.log (commitCall cfg d.frame t manifestDigest count)).recordCommit cfg
        d.frame.key (committedReplica t manifestDigest count))
  | unpublished (t : ReceiveTransaction Time) (manifestDigest : Digest) (count : ℕ+)
      (record : CommitRecord) (h : Commits s d t manifestDigest count record) :
      Effect s d ((s.log (commitCall cfg d.frame t manifestDigest count)).discard d.frame.key)

variable {cfg}

theorem begin_effect {s : Receiver Time} {d : Delivery Time} {c i : Digest}
    (hf : d.frame.fields = .begin c i) :
    Effect cfg s d (s.begin cfg d.frame c i d.stamp).2 := by
  unfold Receiver.begin
  split
  · split
    · exact .unchanged
    · exact .unchanged
  · rename_i huncommitted
    split
    · rename_i t ht
      split
      · exact .touched t ht
      · exact .discarded
    · rename_i hnew
      dsimp only
      split
      · rename_i hfull
        exact .superseded c i hf huncommitted hnew (Or.inl hfull)
      · rename_i hroom
        split
        · rename_i e hencode
          refine .superseded c i hf huncommitted hnew (Or.inr fun encoded h => ?_)
          rw [hencode] at h
          cases h
        · rename_i encoded hencode
          exact .opened c i encoded hf huncommitted hnew (Nat.lt_of_not_le hroom) hencode

theorem putChunk_effect {s : Receiver Time} {d : Delivery Time} {index : ℕ} {digest : Digest}
    (hf : d.frame.fields = .putChunk index digest) :
    Effect cfg s d (s.putChunk cfg d.frame index digest d.stamp d.raises).2 := by
  unfold putChunk
  split
  · exact .unchanged
  · rename_i t ht
    split
    · exact .unchanged
    · rename_i encoded hencode
      split
      · split
        · exact .touched t ht
        · exact .discarded
      · rename_i hsequence
        unfold putNewChunk
        split
        · exact .discarded
        · rename_i hhash
          split
          · split
            · exact .touched t ht
            · exact .discarded
          · rename_i hindex
            split
            · exact .discarded
            · rename_i hfits
              have h : PutsNewChunk cfg s d t index digest :=
                ⟨hf, ht, hsequence, not_not.mp hhash, hindex, Nat.le_of_not_lt hfits⟩
              dsimp only
              split
              · exact .unstaged t index digest h
              · unfold stageChunk
                split
                · exact .unstaged t index digest h
                · rename_i hroom
                  rw [not_or, Nat.not_lt, Nat.not_lt] at hroom
                  exact .staged t index digest (sha256 encoded) h hroom.1 hroom.2

theorem commit_effect {s : Receiver Time} {d : Delivery Time} {manifestDigest : Digest}
    {count : ℕ+} (hf : d.frame.fields = .commit manifestDigest count) :
    Effect cfg s d (s.commit cfg d.frame manifestDigest count d.raises).2 := by
  unfold commit
  split
  · split
    · exact .unchanged
    · exact .unchanged
  · rename_i huncommitted
    split
    · exact .unchanged
    · rename_i t ht
      split
      · exact .discarded
      · rename_i hhash
        split
        · split
          · exact .discarded
          · exact .unchanged
        · rename_i record hdecoded
          split
          · exact .discarded
          · rename_i hmatches
            have h : Commits s d t manifestDigest count record :=
              ⟨hf, huncommitted, ht, not_not.mp hhash, hdecoded, by simpa using hmatches⟩
            dsimp only
            split
            · exact .unpublished t manifestDigest count record h
            · exact .committed t manifestDigest count record h

theorem handle_effect {s : Receiver Time} {d : Delivery Time} {handled : Handled Time}
    (h : s.handle cfg d = some handled) : Effect cfg s d handled.2 := by
  unfold handle at h
  split at h
  · rename_i hf
    cases h
    exact begin_effect hf
  · rename_i hf
    cases h
    exact putChunk_effect hf
  · rename_i hf
    cases h
    exact commit_effect hf
  · cases h
    unfold abort
    split
    · exact .discarded
    · exact .unchanged
  · cases h
  · cases h

/-- The tables after a delivery: expiry, one effect and the response counter. -/
theorem receive_effect (cfg : ReceiverConfig Time) (s : Receiver Time) (d : Delivery Time) :
    ∃ s', Effect cfg (s.expireInactive cfg d.now) d s' ∧
      ((s.receive cfg d).2 = s' ∨
        (s.receive cfg d).2 = s'.nextSequence.nextSequence) := by
  unfold receive
  dsimp only
  split
  · exact ⟨_, .unchanged, Or.inl rfl⟩
  · rename_i handled hhandle
    have heffect := handle_effect hhandle
    split
    · exact ⟨_, .unchanged, Or.inr rfl⟩
    · split
      · exact ⟨_, heffect, Or.inl rfl⟩
      · exact ⟨_, heffect, Or.inr rfl⟩

end SparkCache.Replication.Receiver
