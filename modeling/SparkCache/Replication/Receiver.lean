import SparkCache.Replication.Protocol
import SparkCache.Lib.Dictionary
import SparkCache.Lib.Run

/-!
# The buddy receiver

`BuddyReceiver` as a function from a state and a delivered frame to a state and
a pair of responses. A frame is delivered with the clock readings that the call
makes and with whether its callback raises. The callbacks themselves are a log
of calls, oldest first. The order of `_active` is never observed.
-/
namespace SparkCache.Replication

/-- `(transaction_id, generation)`. -/
abbrev Key := TransactionId × ℕ

def Header.key (h : Header) : Key := (h.transactionId, h.generation)

structure CommittedReplica where
  transactionId : TransactionId
  generation : ℕ
  contextDigest : Digest
  identityDigest : Digest
  manifestDigest : Digest
  chunkDigests : List Digest
  deriving DecidableEq

structure ReplicaChunk where
  transactionId : TransactionId
  generation : ℕ
  contextDigest : Digest
  identityDigest : Digest
  chunkIndex : ℕ
  chunkDigest : Digest
  payload : Bytes
  deriving DecidableEq

inductive Call where
  | commit (replica : CommittedReplica) (payloads : List Bytes) (record : Bytes)
  | chunk (chunk : ReplicaChunk)
  | streamCommit (replica : CommittedReplica) (record : Bytes)
  deriving DecidableEq

/-- A chunk's digest, and its payload unless it was streamed out. -/
abbrev ChunkEntry := Digest × Option Bytes

namespace ChunkEntry

def stagedBytes (c : ChunkEntry) : ℕ := (c.2.map List.length).getD 0

def stagedChunks (c : ChunkEntry) : ℕ := if c.2.isSome then 1 else 0

end ChunkEntry

structure ReceiveTransaction (Time : Type*) where
  transactionId : TransactionId
  generation : ℕ
  contextDigest : Digest
  identityDigest : Digest
  lastActivity : Time
  chunks : Dictionary ℕ ChunkEntry
  sequences : Dictionary ℕ Digest

namespace ReceiveTransaction
variable {Time : Type*}

def stagedBytes (t : ReceiveTransaction Time) : ℕ := t.chunks.total ChunkEntry.stagedBytes

def stagedChunks (t : ReceiveTransaction Time) : ℕ := t.chunks.total ChunkEntry.stagedChunks

end ReceiveTransaction

/-- `BuddyReceiver.__init__`. `expired now last` stands for
`now - last >= transaction_ttl_seconds` on the clock's floats; the last three fields say which
callbacks are installed. -/
structure ReceiverConfig (Time : Type*) where
  maxActiveTransactions : ℕ
  maxStagedBytes : ℕ
  maxStagedChunks : ℕ
  maxContextChunks : ℕ
  recentCommits : ℕ
  recentGenerations : ℕ
  expired : Time → Time → Bool
  onCommit : Bool
  onChunk : Bool
  onStreamCommit : Bool
  positive : 0 < maxActiveTransactions ∧ 0 < maxStagedBytes ∧ 0 < maxStagedChunks ∧
    0 < maxContextChunks ∧ 0 < recentCommits ∧ 0 < recentGenerations

structure Receiver (Time : Type*) where
  active : Dictionary Key (ReceiveTransaction Time)
  latestGeneration : Dictionary TransactionId ℕ
  committed : Dictionary Key CommittedReplica
  responseSequence : ℕ
  calls : List Call

/-- A frame handed to `receive`: the clock at expiry, the clock when the handler stamps a
transaction, and whether the callback raises. -/
structure Delivery (Time : Type*) where
  frame : Frame
  now : Time
  stamp : Time
  raises : Bool

/-- What a handler returns or raises, and the state it leaves. -/
abbrev Handled (Time : Type*) := Except ReplicationError AckStatus × Receiver Time

namespace Receiver
variable {Time : Type*}

def initial : Receiver Time := ⟨∅, ∅, ∅, 0, []⟩

def stagedBytes (s : Receiver Time) : ℕ := s.active.total ReceiveTransaction.stagedBytes

def stagedChunks (s : Receiver Time) : ℕ := s.active.total ReceiveTransaction.stagedChunks

def activeTransactions (s : Receiver Time) : ℕ := s.active.size

def discard (s : Receiver Time) (key : Key) : Receiver Time :=
  { s with active := s.active.erase key }

def store (s : Receiver Time) (key : Key) (t : ReceiveTransaction Time) : Receiver Time :=
  { s with active := s.active.insert key t }

/-- Enter the call of an installed callback. -/
def log (s : Receiver Time) (call : Option Call) : Receiver Time :=
  { s with calls := s.calls ++ call.toList }

/-- `transaction.last_activity = self._clock()` -/
def touch (s : Receiver Time) (key : Key) (t : ReceiveTransaction Time) (stamp : Time) :
    Receiver Time :=
  s.store key { t with lastActivity := stamp }

/-- Discard the transaction and answer "aborted". -/
def abandon (s : Receiver Time) (key : Key) : Handled Time := (.ok .aborted, s.discard key)

variable (cfg : ReceiverConfig Time)

def ackFrame (s : Receiver Time) (f : Frame) (status : AckStatus) : Frame :=
  { transactionId := f.transactionId
    generation := f.generation
    sequence := s.responseSequence
    fields := .ack f.sequence status
    payload := []
    valid := rfl }

def creditFrame (s : Receiver Time) (f : Frame) : Frame :=
  { transactionId := f.transactionId
    generation := f.generation
    sequence := s.responseSequence
    fields := .credit (cfg.maxStagedBytes - s.stagedBytes) (cfg.maxStagedChunks - s.stagedChunks)
    payload := []
    valid := rfl }

def nextSequence (s : Receiver Time) : Receiver Time :=
  { s with responseSequence := s.responseSequence + 1 }

/-- `_responses`: the ACK takes the next response sequence and the CREDIT the one after. -/
def responses (s : Receiver Time) (f : Frame) (status : AckStatus) :
    (Frame × Frame) × Receiver Time :=
  ((s.ackFrame f status, s.nextSequence.creditFrame cfg f), s.nextSequence.nextSequence)

/-- `_check_generation` -/
def checkGeneration (s : Receiver Time) (f : Frame) : Bool :=
  match s.latestGeneration.lookup f.transactionId with
  | none => true
  | some latest => latest ≤ f.generation

/-- Forget the generation of the oldest transaction name that is not active. -/
def dropIdleGeneration (s : Receiver Time) : Receiver Time :=
  match s.latestGeneration.keys.reverse.find? fun candidate =>
      !s.active.keys.any fun key => key.1 = candidate with
  | none => s
  | some removable => { s with latestGeneration := s.latestGeneration.erase removable }

/-- `_remember_generation`. Each turn of the loop drops one name or ends it, so it runs at
most once for each name over the bound. -/
def rememberGeneration (s : Receiver Time) (transactionId : TransactionId) (generation : ℕ) :
    Receiver Time :=
  let s := { s with latestGeneration := s.latestGeneration.insert transactionId generation }
  dropIdleGeneration^[s.latestGeneration.size - cfg.recentGenerations] s

/-- `expire_inactive` -/
def expireInactive (s : Receiver Time) (now : Time) : Receiver Time :=
  { s with active := s.active.filter fun _ t => !cfg.expired now t.lastActivity }

/-- A newer generation discards the one remembered so far. -/
def supersede (s : Receiver Time) (transactionId : TransactionId) (generation : ℕ) :
    Receiver Time :=
  match s.latestGeneration.lookup transactionId with
  | none => s
  | some latest => if latest < generation then s.discard (transactionId, latest) else s

/-- The transaction that a BEGIN opens. -/
def openTransaction (f : Frame) (contextDigest identityDigest : Digest) (stamp : Time)
    (fingerprint : Digest) : ReceiveTransaction Time :=
  { transactionId := f.transactionId
    generation := f.generation
    contextDigest := contextDigest
    identityDigest := identityDigest
    lastActivity := stamp
    chunks := ∅
    sequences := AList.singleton f.sequence fingerprint }

/-- `_begin` -/
def begin (s : Receiver Time) (f : Frame) (contextDigest identityDigest : Digest) (stamp : Time) :
    Handled Time :=
  match s.committed.lookup f.key with
  | some committed =>
      if committed.contextDigest = contextDigest ∧ committed.identityDigest = identityDigest then
        (.ok .committed, s)
      else (.ok .rejected, s)
  | none =>
      match s.active.lookup f.key with
      | some existing =>
          if existing.contextDigest = contextDigest ∧ existing.identityDigest = identityDigest then
            (.ok .duplicate, s.touch f.key existing stamp)
          else s.abandon f.key
      | none =>
          let s := s.supersede f.transactionId f.generation
          if cfg.maxActiveTransactions ≤ s.activeTransactions then (.ok .rejected, s)
          else match f.encode with
            | .error e => (.error e, s)
            | .ok encoded =>
                let t := openTransaction f contextDigest identityDigest stamp (sha256 encoded)
                (.ok .ok, (s.store f.key t).rememberGeneration cfg f.transactionId f.generation)

/-- The end of `_put_chunk`: stage the chunk if it fits. -/
def stageChunk (s : Receiver Time) (f : Frame) (t : ReceiveTransaction Time) (index : ℕ)
    (entry : ChunkEntry) (fingerprint : Digest) (stamp : Time) : Handled Time :=
  if cfg.maxStagedBytes < s.stagedBytes + entry.stagedBytes ∨
      cfg.maxStagedChunks < s.stagedChunks + entry.stagedChunks then s.abandon f.key
  else (.ok .ok, s.store f.key
    { t with
      chunks := t.chunks.insert index entry
      sequences := t.sequences.insert f.sequence fingerprint
      lastActivity := stamp })

/-- The call of `on_chunk`, if it is installed. -/
def chunkCall (f : Frame) (t : ReceiveTransaction Time) (index : ℕ) (digest : Digest) :
    Option Call :=
  if cfg.onChunk then
    some (.chunk
      { transactionId := t.transactionId
        generation := t.generation
        contextDigest := t.contextDigest
        identityDigest := t.identityDigest
        chunkIndex := index
        chunkDigest := digest
        payload := f.payload })
  else none

/-- The payload is kept only where no callback took it. -/
def stagedEntry (f : Frame) (digest : Digest) : ChunkEntry :=
  (digest, if cfg.onChunk then none else some f.payload)

/-- `_put_chunk` after the sequence was found to be new. -/
def putNewChunk (s : Receiver Time) (f : Frame) (t : ReceiveTransaction Time) (index : ℕ)
    (digest fingerprint : Digest) (stamp : Time) (raises : Bool) : Handled Time :=
  if sha256 f.payload ≠ digest then s.abandon f.key
  else match t.chunks.lookup index with
    | some (stagedDigest, stagedPayload) =>
        if stagedDigest = digest ∧ (stagedPayload = none ∨ stagedPayload = some f.payload) then
          (.ok .duplicate, s.touch f.key t stamp)
        else s.abandon f.key
    | none =>
        if cfg.maxContextChunks < t.chunks.size + 1 then s.abandon f.key
        else
          let s := s.log (chunkCall cfg f t index digest)
          if cfg.onChunk && raises then s.abandon f.key
          else s.stageChunk cfg f t index (stagedEntry cfg f digest) fingerprint stamp

/-- `_put_chunk` -/
def putChunk (s : Receiver Time) (f : Frame) (index : ℕ) (digest : Digest) (stamp : Time)
    (raises : Bool) : Handled Time :=
  match s.active.lookup f.key with
  | none => (.ok .rejected, s)
  | some t =>
      match f.encode with
      | .error e => (.error e, s)
      | .ok encoded =>
          match t.sequences.lookup f.sequence with
          | some seen =>
              if seen = sha256 encoded then (.ok .duplicate, s.touch f.key t stamp)
              else s.abandon f.key
          | none => s.putNewChunk cfg f t index digest (sha256 encoded) stamp raises

/-- The entries at positions `0, …, count - 1`. -/
def orderedChunks (t : ReceiveTransaction Time) (count : ℕ) : List ChunkEntry :=
  (List.range count).filterMap fun index => t.chunks.lookup index

/-- The checks of `_commit` on a decoded record. -/
def recordMatches (t : ReceiveTransaction Time) (record : CommitRecord) (count : ℕ) : Bool :=
  record.transactionId = t.transactionId && record.generation = t.generation &&
    record.contextDigest = t.contextDigest && record.chunkDigests.length = count &&
    t.chunks.keys.toFinset = Finset.range count &&
    (orderedChunks t count).map Prod.fst = record.chunkDigests

def committedReplica (t : ReceiveTransaction Time) (manifestDigest : Digest) (count : ℕ) :
    CommittedReplica :=
  { transactionId := t.transactionId
    generation := t.generation
    contextDigest := t.contextDigest
    identityDigest := t.identityDigest
    manifestDigest := manifestDigest
    chunkDigests := (orderedChunks t count).map Prod.fst }

/-- The publication callback of `_commit`, if one is installed. -/
def commitCall (f : Frame) (t : ReceiveTransaction Time) (manifestDigest : Digest) (count : ℕ) :
    Option Call :=
  let replica := committedReplica t manifestDigest count
  if cfg.onChunk then
    if cfg.onStreamCommit then some (.streamCommit replica f.payload) else none
  else if cfg.onCommit then
    some (.commit replica ((orderedChunks t count).filterMap Prod.snd) f.payload)
  else none

/-- The end of `_commit`, after the callback returned. -/
def recordCommit (s : Receiver Time) (key : Key) (replica : CommittedReplica) : Receiver Time :=
  { s.discard key with committed := (s.committed.insert key replica).newest cfg.recentCommits }

/-- `_commit` -/
def commit (s : Receiver Time) (f : Frame) (manifestDigest : Digest) (count : ℕ)
    (raises : Bool) : Handled Time :=
  match s.committed.lookup f.key with
  | some prior =>
      if prior.manifestDigest = manifestDigest then (.ok .committed, s) else (.ok .rejected, s)
  | none =>
      match s.active.lookup f.key with
      | none => (.ok .rejected, s)
      | some t =>
          if sha256 f.payload ≠ manifestDigest then s.abandon f.key
          else match decodeCommitRecord f.payload with
            | .error e => if e.isProtocolError then s.abandon f.key else (.error e, s)
            | .ok record =>
                if !recordMatches t record count then s.abandon f.key
                else
                  let call := commitCall cfg f t manifestDigest count
                  let s := s.log call
                  if call.isSome && raises then s.abandon f.key
                  else (.ok .committed,
                    s.recordCommit cfg f.key (committedReplica t manifestDigest count))

/-- `_abort` -/
def abort (s : Receiver Time) (f : Frame) : Handled Time :=
  if f.key ∈ s.active then s.abandon f.key else (.ok .duplicate, s)

/-- The handler of the frame's type, if it has one. -/
def handle (s : Receiver Time) (d : Delivery Time) : Option (Handled Time) :=
  match d.frame.fields with
  | .begin contextDigest identityDigest =>
      some (s.begin cfg d.frame contextDigest identityDigest d.stamp)
  | .putChunk index digest =>
      some (s.putChunk cfg d.frame index digest d.stamp d.raises)
  | .commit manifestDigest count =>
      some (s.commit cfg d.frame manifestDigest count d.raises)
  | .abort _ => some (s.abort d.frame)
  | .ack .. | .credit .. => none

/-- `receive` -/
def receive (s : Receiver Time) (d : Delivery Time) :
    Except ReplicationError (Frame × Frame) × Receiver Time :=
  let s := s.expireInactive cfg d.now
  match s.handle cfg d with
  | none => (.error (.protocol "receiver accepts only transaction frames"), s)
  | some handled =>
      if !s.checkGeneration d.frame then
        let (frames, s) := s.responses cfg d.frame .rejected
        (.ok frames, s)
      else match handled with
        | (.error e, s) => (.error e, s)
        | (.ok status, s) =>
            let (frames, s) := s.responses cfg d.frame status
            (.ok frames, s)

end Receiver

/-- What happens to a receiver: a frame arrives, or its carrier runs the expiry. -/
inductive Input (Time : Type*) where
  | deliver (d : Delivery Time)
  | expire (now : Time)

namespace Receiver
variable {Time : Type*} (cfg : ReceiverConfig Time)

def step (s : Receiver Time) : Input Time → Receiver Time
  | .deliver d => (s.receive cfg d).2
  | .expire now => s.expireInactive cfg now

def run (inputs : List (Input Time)) : Receiver Time := Run.exec (step cfg) initial inputs

/-! ## Frame lemmas -/

section FrameLemmas

@[simp] theorem discard_active (s : Receiver Time) (key : Key) :
    (s.discard key).active = s.active.erase key := rfl

@[simp] theorem discard_committed (s : Receiver Time) (key : Key) :
    (s.discard key).committed = s.committed := rfl

@[simp] theorem discard_calls (s : Receiver Time) (key : Key) :
    (s.discard key).calls = s.calls := rfl

@[simp] theorem discard_latestGeneration (s : Receiver Time) (key : Key) :
    (s.discard key).latestGeneration = s.latestGeneration := rfl

@[simp] theorem store_active (s : Receiver Time) (key : Key) (t : ReceiveTransaction Time) :
    (s.store key t).active = s.active.insert key t := rfl

@[simp] theorem store_committed (s : Receiver Time) (key : Key) (t : ReceiveTransaction Time) :
    (s.store key t).committed = s.committed := rfl

@[simp] theorem store_calls (s : Receiver Time) (key : Key) (t : ReceiveTransaction Time) :
    (s.store key t).calls = s.calls := rfl

@[simp] theorem store_latestGeneration (s : Receiver Time) (key : Key)
    (t : ReceiveTransaction Time) : (s.store key t).latestGeneration = s.latestGeneration := rfl

@[simp] theorem log_active (s : Receiver Time) (call : Option Call) :
    (s.log call).active = s.active := rfl

@[simp] theorem log_committed (s : Receiver Time) (call : Option Call) :
    (s.log call).committed = s.committed := rfl

@[simp] theorem log_calls (s : Receiver Time) (call : Option Call) :
    (s.log call).calls = s.calls ++ call.toList := rfl

@[simp] theorem log_latestGeneration (s : Receiver Time) (call : Option Call) :
    (s.log call).latestGeneration = s.latestGeneration := rfl

@[simp] theorem nextSequence_active (s : Receiver Time) : s.nextSequence.active = s.active := rfl

@[simp] theorem nextSequence_committed (s : Receiver Time) :
    s.nextSequence.committed = s.committed := rfl

@[simp] theorem nextSequence_calls (s : Receiver Time) : s.nextSequence.calls = s.calls := rfl

@[simp] theorem nextSequence_latestGeneration (s : Receiver Time) :
    s.nextSequence.latestGeneration = s.latestGeneration := rfl

@[simp] theorem expireInactive_committed (s : Receiver Time) (now : Time) :
    (s.expireInactive cfg now).committed = s.committed := rfl

@[simp] theorem expireInactive_calls (s : Receiver Time) (now : Time) :
    (s.expireInactive cfg now).calls = s.calls := rfl

@[simp] theorem expireInactive_latestGeneration (s : Receiver Time) (now : Time) :
    (s.expireInactive cfg now).latestGeneration = s.latestGeneration := rfl

@[simp] theorem recordCommit_active (s : Receiver Time) (key : Key) (replica : CommittedReplica) :
    (s.recordCommit cfg key replica).active = s.active.erase key := rfl

@[simp] theorem recordCommit_calls (s : Receiver Time) (key : Key) (replica : CommittedReplica) :
    (s.recordCommit cfg key replica).calls = s.calls := rfl

@[simp] theorem recordCommit_committed (s : Receiver Time) (key : Key)
    (replica : CommittedReplica) :
    (s.recordCommit cfg key replica).committed =
      (s.committed.insert key replica).newest cfg.recentCommits := rfl

@[simp] theorem recordCommit_latestGeneration (s : Receiver Time) (key : Key)
    (replica : CommittedReplica) :
    (s.recordCommit cfg key replica).latestGeneration = s.latestGeneration := rfl

/-- A superseding BEGIN discards at most one transaction of the same name. -/
theorem supersede_eq (s : Receiver Time) (transactionId : TransactionId) (generation : ℕ) :
    s.supersede transactionId generation = s ∨
      ∃ latest, s.latestGeneration.lookup transactionId = some latest ∧ latest < generation ∧
        s.supersede transactionId generation = s.discard (transactionId, latest) := by
  unfold supersede
  split
  · exact Or.inl rfl
  · rename_i latest hlatest
    split
    · rename_i hlt
      exact Or.inr ⟨latest, hlatest, hlt, rfl⟩
    · exact Or.inl rfl

@[simp] theorem supersede_committed (s : Receiver Time) (transactionId : TransactionId)
    (generation : ℕ) : (s.supersede transactionId generation).committed = s.committed := by
  rcases s.supersede_eq transactionId generation with h | ⟨_, _, _, h⟩ <;> simp [h]

@[simp] theorem supersede_calls (s : Receiver Time) (transactionId : TransactionId)
    (generation : ℕ) : (s.supersede transactionId generation).calls = s.calls := by
  rcases s.supersede_eq transactionId generation with h | ⟨_, _, _, h⟩ <;> simp [h]

@[simp] theorem supersede_latestGeneration (s : Receiver Time) (transactionId : TransactionId)
    (generation : ℕ) :
    (s.supersede transactionId generation).latestGeneration = s.latestGeneration := by
  rcases s.supersede_eq transactionId generation with h | ⟨_, _, _, h⟩ <;> simp [h]

theorem dropIdleGeneration_frame (s : Receiver Time) :
    s.dropIdleGeneration.active = s.active ∧ s.dropIdleGeneration.committed = s.committed ∧
      s.dropIdleGeneration.calls = s.calls := by
  unfold dropIdleGeneration
  split <;> exact ⟨rfl, rfl, rfl⟩

theorem iterate_dropIdleGeneration_frame (n : ℕ) (s : Receiver Time) :
    (dropIdleGeneration^[n] s).active = s.active ∧
      (dropIdleGeneration^[n] s).committed = s.committed ∧
      (dropIdleGeneration^[n] s).calls = s.calls := by
  induction n generalizing s with
  | zero => exact ⟨rfl, rfl, rfl⟩
  | succ n ih =>
      obtain ⟨hactive, hcommitted, hcalls⟩ := s.dropIdleGeneration_frame
      rw [Function.iterate_succ_apply, ← hactive, ← hcommitted, ← hcalls]
      exact ih _

@[simp] theorem rememberGeneration_active (s : Receiver Time) (transactionId : TransactionId)
    (generation : ℕ) :
    (s.rememberGeneration cfg transactionId generation).active = s.active :=
  (iterate_dropIdleGeneration_frame _ _).1

@[simp] theorem rememberGeneration_committed (s : Receiver Time)
    (transactionId : TransactionId) (generation : ℕ) :
    (s.rememberGeneration cfg transactionId generation).committed = s.committed :=
  (iterate_dropIdleGeneration_frame _ _).2.1

@[simp] theorem rememberGeneration_calls (s : Receiver Time) (transactionId : TransactionId)
    (generation : ℕ) :
    (s.rememberGeneration cfg transactionId generation).calls = s.calls :=
  (iterate_dropIdleGeneration_frame _ _).2.2

end FrameLemmas

end Receiver
end SparkCache.Replication
