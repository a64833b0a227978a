import SparkCache.Replication.Codec
import SparkCache.Replication.Sender

/-!
# A sender and a receiver on one connection

The forward channel delivers the sender's bytes in order and loses nothing. It
is kept as the list of all frames ever put on it and the number that arrived.
Answers travel in order too; one may be lost when its turn comes. Each answer
remembers how many frames had arrived when it was made, which neither party
sees.
-/
namespace SparkCache.Replication

/-- An ACK or CREDIT on its way back. -/
structure Reply where
  answered : ℕ
  frame : Frame

structure LinkConfig (Time : Type*) where
  sender : SenderConfig
  receiver : ReceiverConfig Time

structure Link (Time : Type*) where
  sender : Sender
  receiver : Receiver Time
  /-- The frames that `offer` took, at their first offer. -/
  offered : List Frame
  /-- Every frame put on the forward channel, oldest first. -/
  sent : List Frame
  arrived : ℕ
  replies : List Reply
  /-- The newest CREDIT that the sender applied. -/
  basis : Option Reply

inductive Action (Time : Type*) where
  | offer (f : Frame)
  /-- Send one of the frames of `retransmit` again. -/
  | retransmit (index : ℕ)
  | sendAborts
  | deliver (now stamp : Time) (raises : Bool)
  | expire (now : Time)
  | reply
  | lose

/-- The frames that the receiver's decoder makes of the bytes of one message. -/
def decodeWire (encoded : Bytes) : List Frame :=
  match (FrameStreamDecoder.default.feed [] encoded).1 with
  | .ok frames => frames
  | .error _ => []

@[simp] theorem decodeWire_encode {f : Frame} {encoded : Bytes} (h : f.encode = .ok encoded) :
    decodeWire encoded = [f] := by
  rw [decodeWire, FrameStreamDecoder.feed_encode h]

namespace Link
variable {Time : Type*}

def initial : Link Time := ⟨Sender.initial, Receiver.initial, [], [], 0, [], none⟩

def transmit (l : Link Time) (encoded : Bytes) : Link Time :=
  { l with sent := l.sent ++ decodeWire encoded }

/-- Log the first offer of a frame. -/
def logOffer (l : Link Time) (f : Frame) : Link Time :=
  if f ∈ l.offered then l else { l with offered := l.offered ++ [f] }

/-- The outcome of `offer`: bytes to send, or nothing. -/
def takeOffer (l : Link Time) (f : Frame) : Except ReplicationError (Option Bytes) × Sender → Link Time
  | (.ok (some encoded), s) => ({ l with sender := s }.logOffer f).transmit encoded
  | (_, s) => { l with sender := s }

/-- The next frame to arrive. -/
def next? (l : Link Time) : Option Frame := l.sent[l.arrived]?

/-- The answers of one delivery. -/
def repliesTo (answered : ℕ) : Except ReplicationError (Frame × Frame) → List Reply
  | .ok (ack, credit) => [⟨answered, ack⟩, ⟨answered, credit⟩]
  | .error _ => []

/-- A CREDIT becomes the basis of the window unless the sender ignores it. -/
def newBasis (s : Sender) (r : Reply) (old : Option Reply) : Option Reply :=
  if r.frame.frameType = .CREDIT ∧ s.lastCreditSequence < r.frame.sequence then some r else old

variable (cfg : LinkConfig Time)

def act (l : Link Time) : Action Time → Link Time
  | .offer f => l.takeOffer f (l.sender.offer cfg.sender f)
  | .retransmit index =>
      match l.sender.retransmit[index]? with
      | some encoded => l.transmit encoded
      | none => l
  | .sendAborts =>
      l.sender.takeBestEffortAborts.1.foldl transmit
        { l with sender := l.sender.takeBestEffortAborts.2 }
  | .deliver now stamp raises =>
      match l.next? with
      | none => l
      | some f =>
          let outcome := l.receiver.receive cfg.receiver ⟨f, now, stamp, raises⟩
          { l with
            receiver := outcome.2
            arrived := l.arrived + 1
            replies := l.replies ++ repliesTo (l.arrived + 1) outcome.1 }
  | .expire now => { l with receiver := l.receiver.expireInactive cfg.receiver now }
  | .reply =>
      match l.replies with
      | [] => l
      | r :: rest =>
          let s := if r.frame.frameType = .ACK then l.sender.acknowledge cfg.sender r.frame
            else l.sender.applyCredit r.frame
          { l with sender := s.2, replies := rest, basis := newBasis l.sender r l.basis }
  | .lose => { l with replies := l.replies.tail }

def run (actions : List (Action Time)) : Link Time := Run.exec (act cfg) initial actions

/-- A condition holds at every action of a run. -/
abbrev Throughout (condition : Link Time → Action Time → Prop) (actions : List (Action Time)) :
    Prop :=
  Run.Throughout (act cfg) condition initial actions

@[simp] theorem logOffer_sender (l : Link Time) (f : Frame) :
    (l.logOffer f).sender = l.sender := by
  unfold logOffer
  split <;> rfl

@[simp] theorem logOffer_receiver (l : Link Time) (f : Frame) :
    (l.logOffer f).receiver = l.receiver := by
  unfold logOffer
  split <;> rfl

@[simp] theorem logOffer_sent (l : Link Time) (f : Frame) : (l.logOffer f).sent = l.sent := by
  unfold logOffer
  split <;> rfl

@[simp] theorem logOffer_arrived (l : Link Time) (f : Frame) :
    (l.logOffer f).arrived = l.arrived := by
  unfold logOffer
  split <;> rfl

@[simp] theorem logOffer_replies (l : Link Time) (f : Frame) :
    (l.logOffer f).replies = l.replies := by
  unfold logOffer
  split <;> rfl

@[simp] theorem logOffer_basis (l : Link Time) (f : Frame) : (l.logOffer f).basis = l.basis := by
  unfold logOffer
  split <;> rfl

theorem takeOffer_none (l : Link Time) (f : Frame) {result : Except ReplicationError (Option Bytes)}
    (s : Sender) (h : ∀ encoded, result ≠ .ok (some encoded)) :
    l.takeOffer f (result, s) = { l with sender := s } := by
  cases result with
  | error e => rfl
  | ok encoded =>
      cases encoded with
      | none => rfl
      | some encoded => exact absurd rfl (h encoded)

theorem takeOffer_some (l : Link Time) {f : Frame} {encoded : Bytes} (s : Sender)
    (h : f.encode = .ok encoded) :
    l.takeOffer f (.ok (some encoded), s) =
      { ({ l with sender := s }.logOffer f) with sent := l.sent ++ [f] } := by
  simp [takeOffer, transmit, decodeWire_encode h]

theorem foldl_transmit (aborts : List Bytes) (l : Link Time) :
    aborts.foldl transmit l = { l with sent := l.sent ++ aborts.flatMap decodeWire } := by
  induction aborts generalizing l with
  | nil => simp
  | cons b rest ih => simp [ih, transmit]

@[simp] theorem takeOffer_receiver (l : Link Time) (f : Frame)
    (outcome : Except ReplicationError (Option Bytes) × Sender) :
    (l.takeOffer f outcome).receiver = l.receiver := by
  unfold takeOffer
  split
  · simp [transmit]
  · rfl

theorem take_arrived_succ {l : Link Time} {f : Frame} (hnext : l.next? = some f) :
    l.arrived < l.sent.length ∧ l.sent.take (l.arrived + 1) = l.sent.take l.arrived ++ [f] := by
  obtain ⟨hlt, hf⟩ := List.getElem?_eq_some_iff.mp hnext
  refine ⟨hlt, ?_⟩
  rw [List.take_add_one, show l.sent[l.arrived]? = some f from hnext]
  rfl

/-! ## Sample transactions -/

theorem isHexCode_one : isHexCode 49 = true := rfl

def sampleTransaction (code : ℕ) (h : isHexCode code = true) : TransactionId :=
  Hex.replicate 32 code h

/-- The BEGIN of a transaction, with its sequence 0. -/
def sampleBegin (transactionId : TransactionId) : Frame :=
  { transactionId := transactionId
    generation := 1
    sequence := 0
    fields := .begin zeroDigest zeroDigest
    payload := []
    valid := rfl }

/-- A one-byte chunk. -/
def samplePut (transactionId : TransactionId) (index : ℕ) (byte : UInt8) : Frame :=
  { transactionId := transactionId
    generation := 1
    sequence := index + 1
    fields := .putChunk index (sha256 [byte])
    payload := [byte]
    valid := rfl }

/-- The defaults of both sides, with a clock of whole seconds, and room for one staged chunk. -/
def narrowLink : LinkConfig ℕ :=
  { sender := ⟨32, 64 * 2 ^ 20, 1024, by decide⟩
    receiver :=
      { maxActiveTransactions := 4
        maxStagedBytes := 64 * 2 ^ 20
        maxStagedChunks := 1
        maxContextChunks := 4096
        recentCommits := 256
        recentGenerations := 512
        expired := fun now last => 30 ≤ now - last
        onCommit := true
        onChunk := false
        onStreamCommit := false
        positive := by decide } }

end Link
end SparkCache.Replication
