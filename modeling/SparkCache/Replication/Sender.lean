import SparkCache.Replication.Receiver

/-!
# The buddy sender

`BuddySender` and its credit window. A frame that cannot proceed marks its
transaction local-only; nothing here waits.
-/
namespace SparkCache.Replication

abbrev FrameKey := Key × ℕ

def Header.frameKey (h : Header) : FrameKey := (h.key, h.sequence)

structure SenderConfig where
  maxInflightFrames : ℕ
  maxInflightBytes : ℕ
  recentLocalOnly : ℕ
  positive : 0 < maxInflightFrames ∧ 0 < maxInflightBytes ∧ 0 < recentLocalOnly

structure Sender where
  availableBytes : ℕ
  availableFrames : ℕ
  lastCreditSequence : ℤ
  inflight : Dictionary FrameKey Bytes
  localOnly : Dictionary Key Unit
  bestEffortAborts : Dictionary Key Bytes

namespace Sender

def initial : Sender := ⟨0, 0, -1, ∅, ∅, ∅⟩

def inflightBytes (s : Sender) : ℕ := s.inflight.total List.length

def inflightFrames (s : Sender) : ℕ := s.inflight.size

/-- `is_local_only` of one generation. -/
def isLocalOnly (s : Sender) (key : Key) : Bool := key ∈ s.localOnly

/-- `apply_credit` -/
def applyCredit (s : Sender) (f : Frame) : Except ReplicationError Unit × Sender :=
  match f.fields with
  | .credit availableBytes availableFrames =>
      if (f.sequence : ℤ) ≤ s.lastCreditSequence then (.ok (), s)
      else (.ok (), { s with
        lastCreditSequence := f.sequence
        availableBytes := availableBytes
        availableFrames := availableFrames })
  | _ => (.error (.protocol "expected CREDIT frame"), s)

def degradedReason : Reason := ⟨"sender degraded to local-only", by decide +kernel⟩

/-- The reserved frame that releases remote staging. -/
def abortFrame (key : Key) : Frame :=
  { transactionId := key.1
    generation := key.2
    sequence := 2 ^ 63 - 1
    fields := .abort degradedReason
    payload := []
    valid := rfl }

/-- `_mark_local_only` -/
def markLocalOnly (cfg : SenderConfig) (s : Sender) (key : Key) :
    Except ReplicationError Unit × Sender :=
  let s := { s with
    localOnly := (s.localOnly.insert key ()).newest cfg.recentLocalOnly
    inflight := s.inflight.filter fun frameKey _ => frameKey.1 ≠ key }
  match (abortFrame key).encode with
  | .error e => (.error e, s)
  | .ok encoded =>
      (.ok (), { s with bestEffortAborts := s.bestEffortAborts.insert key encoded })

/-- Give the transaction up and offer nothing. -/
def degrade (cfg : SenderConfig) (s : Sender) (key : Key) :
    Except ReplicationError (Option Bytes) × Sender :=
  let (result, s) := s.markLocalOnly cfg key
  (result.map fun _ => none, s)

/-- Enter a frame in the window. -/
def hold (s : Sender) (frameKey : FrameKey) (encoded : Bytes) : Sender :=
  { s with inflight := s.inflight.insert frameKey encoded }

def spend (s : Sender) (payloadBytes : ℕ) : Sender :=
  { s with
    availableFrames := s.availableFrames - 1
    availableBytes := s.availableBytes - payloadBytes }

/-- `offer` -/
def offer (cfg : SenderConfig) (s : Sender) (f : Frame) :
    Except ReplicationError (Option Bytes) × Sender :=
  if f.frameType ∉ [.BEGIN, .PUT_CHUNK, .COMMIT, .ABORT] then
    (.error (.protocol "sender accepts only transaction frames"), s)
  else if s.isLocalOnly f.key ∧ f.frameType ≠ .ABORT then (.ok none, s)
  else match f.encode with
    | .error e => (.error e, s)
    | .ok encoded =>
        match s.inflight.lookup f.frameKey with
        | some existing =>
            if existing = encoded then (.ok (some existing), s) else s.degrade cfg f.key
        | none =>
            if cfg.maxInflightFrames < s.inflightFrames + 1 ∨
                cfg.maxInflightBytes < s.inflightBytes + encoded.length then
              s.degrade cfg f.key
            else if f.frameType = .PUT_CHUNK then
              if s.availableFrames < 1 ∨ s.availableBytes < f.payload.length then
                s.degrade cfg f.key
              else (.ok (some encoded), (s.spend f.payload.length).hold f.frameKey encoded)
            else (.ok (some encoded), s.hold f.frameKey encoded)

/-- `acknowledge` -/
def acknowledge (cfg : SenderConfig) (s : Sender) (f : Frame) :
    Except ReplicationError Unit × Sender :=
  match f.fields with
  | .ack ackSequence status =>
      let frameKey : FrameKey := (f.key, ackSequence)
      if frameKey ∉ s.inflight then (.ok (), s)
      else
        let s := { s with inflight := s.inflight.erase frameKey }
        if status = .rejected ∨ status = .aborted then s.markLocalOnly cfg f.key
        else (.ok (), s)
  | _ => (.error (.protocol "expected ACK frame"), s)

/-- `retransmit`, in the order the frames were offered. -/
def retransmit (s : Sender) : List Bytes := (s.inflight.entries.map Sigma.snd).reverse

/-- `take_best_effort_aborts` -/
def takeBestEffortAborts (s : Sender) : List Bytes × Sender :=
  ((s.bestEffortAborts.entries.map Sigma.snd).reverse, { s with bestEffortAborts := ∅ })

/-! ## What each operation does -/

@[simp] theorem hold_inflight (s : Sender) (frameKey : FrameKey) (encoded : Bytes) :
    (s.hold frameKey encoded).inflight = s.inflight.insert frameKey encoded := rfl

@[simp] theorem hold_localOnly (s : Sender) (frameKey : FrameKey) (encoded : Bytes) :
    (s.hold frameKey encoded).localOnly = s.localOnly := rfl

@[simp] theorem hold_bestEffortAborts (s : Sender) (frameKey : FrameKey) (encoded : Bytes) :
    (s.hold frameKey encoded).bestEffortAborts = s.bestEffortAborts := rfl

@[simp] theorem hold_availableFrames (s : Sender) (frameKey : FrameKey) (encoded : Bytes) :
    (s.hold frameKey encoded).availableFrames = s.availableFrames := rfl

@[simp] theorem hold_lastCreditSequence (s : Sender) (frameKey : FrameKey) (encoded : Bytes) :
    (s.hold frameKey encoded).lastCreditSequence = s.lastCreditSequence := rfl

@[simp] theorem spend_inflight (s : Sender) (n : ℕ) : (s.spend n).inflight = s.inflight := rfl

@[simp] theorem spend_localOnly (s : Sender) (n : ℕ) : (s.spend n).localOnly = s.localOnly := rfl

@[simp] theorem spend_bestEffortAborts (s : Sender) (n : ℕ) :
    (s.spend n).bestEffortAborts = s.bestEffortAborts := rfl

variable (cfg : SenderConfig)

/-- Marking a transaction local-only drops its frames and queues one ABORT. -/
structure MarkedLocalOnly (cfg : SenderConfig) (s : Sender) (key : Key) (s' : Sender) : Prop where
  inflight : s'.inflight = s.inflight.filter fun frameKey _ => frameKey.1 ≠ key
  localOnly : s'.localOnly = (s.localOnly.insert key ()).newest cfg.recentLocalOnly
  aborts : s'.bestEffortAborts = s.bestEffortAborts ∨
    ∃ encoded, (abortFrame key).encode = .ok encoded ∧
      s'.bestEffortAborts = s.bestEffortAborts.insert key encoded
  availableBytes : s'.availableBytes = s.availableBytes
  availableFrames : s'.availableFrames = s.availableFrames
  lastCreditSequence : s'.lastCreditSequence = s.lastCreditSequence

theorem markLocalOnly_spec (s : Sender) (key : Key) :
    MarkedLocalOnly cfg s key (s.markLocalOnly cfg key).2 := by
  unfold markLocalOnly
  dsimp only
  split
  · exact ⟨rfl, rfl, Or.inl rfl, rfl, rfl, rfl⟩
  · rename_i encoded hencode
    exact ⟨rfl, rfl, Or.inr ⟨encoded, hencode, rfl⟩, rfl, rfl, rfl⟩

/-- The outcomes of `offer`. -/
inductive Offered (cfg : SenderConfig) (s : Sender) (f : Frame) :
    Except ReplicationError (Option Bytes) × Sender → Prop
  | refused (result : Except ReplicationError (Option Bytes))
      (h : ∀ encoded, result ≠ .ok (some encoded)) : Offered cfg s f (result, s)
  | degraded (result : Except ReplicationError (Option Bytes)) (s' : Sender)
      (h : ∀ encoded, result ≠ .ok (some encoded)) (hs : MarkedLocalOnly cfg s f.key s') :
      Offered cfg s f (result, s')
  | again (encoded : Bytes) (hencode : f.encode = .ok encoded)
      (h : s.inflight.lookup f.frameKey = some encoded) : Offered cfg s f (.ok (some encoded), s)
  | chunk (encoded : Bytes) (hencode : f.encode = .ok encoded)
      (h : s.inflight.lookup f.frameKey = none) (htype : f.frameType = .PUT_CHUNK)
      (hframes : 1 ≤ s.availableFrames) (hbytes : f.payload.length ≤ s.availableBytes) :
      Offered cfg s f (.ok (some encoded), (s.spend f.payload.length).hold f.frameKey encoded)
  | control (encoded : Bytes) (hencode : f.encode = .ok encoded)
      (h : s.inflight.lookup f.frameKey = none) (htype : f.frameType ≠ .PUT_CHUNK) :
      Offered cfg s f (.ok (some encoded), s.hold f.frameKey encoded)

theorem degrade_offered (s : Sender) (f : Frame) : Offered cfg s f (s.degrade cfg f.key) := by
  have hspec := s.markLocalOnly_spec cfg f.key
  unfold degrade
  generalize s.markLocalOnly cfg f.key = marked at hspec
  obtain ⟨result, s'⟩ := marked
  refine .degraded _ s' (fun encoded h => ?_) hspec
  cases result with
  | error e => cases h
  | ok u => cases h

theorem offer_offered (s : Sender) (f : Frame) : Offered cfg s f (s.offer cfg f) := by
  unfold offer
  split
  · exact .refused _ (fun encoded h => by cases h)
  split
  · exact .refused _ (fun encoded h => by cases h)
  split
  · exact .refused _ (fun encoded h => by cases h)
  · rename_i encoded hencode
    split
    · rename_i existing hexisting
      split
      · rename_i heq
        subst heq
        exact .again existing hencode hexisting
      · exact s.degrade_offered cfg f
    · rename_i hnew
      split
      · exact s.degrade_offered cfg f
      split
      · rename_i hchunk
        split
        · exact s.degrade_offered cfg f
        · rename_i hcredit
          rw [not_or, Nat.not_lt, Nat.not_lt] at hcredit
          exact .chunk encoded hencode hnew hchunk hcredit.1 hcredit.2
      · rename_i hchunk
        exact .control encoded hencode hnew hchunk

/-- The outcomes of `acknowledge`. -/
inductive Acknowledged (cfg : SenderConfig) (s : Sender) (f : Frame) : Sender → Prop
  | ignored : Acknowledged cfg s f s
  | released (ackSequence : ℕ) (status : AckStatus) (hf : f.fields = .ack ackSequence status)
      (h : status ≠ .rejected ∧ status ≠ .aborted) :
      Acknowledged cfg s f { s with inflight := s.inflight.erase (f.key, ackSequence) }
  | degraded (ackSequence : ℕ) (status : AckStatus) (hf : f.fields = .ack ackSequence status)
      (h : status = .rejected ∨ status = .aborted)
      (hheld : (f.key, ackSequence) ∈ s.inflight) (s' : Sender)
      (hs : MarkedLocalOnly cfg
        { s with inflight := s.inflight.erase (f.key, ackSequence) } f.key s') :
      Acknowledged cfg s f s'

theorem acknowledge_acknowledged (s : Sender) (f : Frame) :
    Acknowledged cfg s f (s.acknowledge cfg f).2 := by
  unfold acknowledge
  split
  · rename_i ackSequence status hf
    dsimp only
    split
    · exact .ignored
    · rename_i hheld
      split
      · rename_i hbad
        exact .degraded ackSequence status hf hbad (not_not.mp hheld) _ (markLocalOnly_spec _ _ _)
      · rename_i hgood
        exact .released ackSequence status hf (not_or.mp hgood)
  · exact .ignored

end Sender
end SparkCache.Replication
