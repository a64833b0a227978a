import SparkCache.Digest
import SparkCache.Json.Library
import SparkCache.Lib.FixedWidth

/-!
# Wire codec of buddy replication

A frame is built from a header dictionary and a payload after the checks of
`Frame.__post_init__`; here the checked fields are typed, and `Frame.header`
gives the dictionary back. The other exceptions that bytes from a peer can raise
are kept apart from `ProtocolError`, which handlers catch.
-/
namespace SparkCache.Replication

abbrev TransactionId := Hex 32

inductive FrameType where
  | BEGIN
  | PUT_CHUNK
  | COMMIT
  | ABORT
  | ACK
  | CREDIT
  deriving DecidableEq, Repr

namespace FrameType

def name : FrameType → String
  | BEGIN => "BEGIN"
  | PUT_CHUNK => "PUT_CHUNK"
  | COMMIT => "COMMIT"
  | ABORT => "ABORT"
  | ACK => "ACK"
  | CREDIT => "CREDIT"

def code : FrameType → ℕ
  | BEGIN => 1
  | PUT_CHUNK => 2
  | COMMIT => 3
  | ABORT => 4
  | ACK => 5
  | CREDIT => 6

def ofCode? : ℕ → Option FrameType
  | 1 => some BEGIN
  | 2 => some PUT_CHUNK
  | 3 => some COMMIT
  | 4 => some ABORT
  | 5 => some ACK
  | 6 => some CREDIT
  | _ => none

@[simp] theorem ofCode?_code (t : FrameType) : ofCode? t.code = some t := by
  cases t <;> rfl

/-- `_FIELDS`, each list sorted. -/
def fields : FrameType → List Str
  | BEGIN => ["context_digest", "generation", "identity_digest", "sequence", "transaction_id"]
  | PUT_CHUNK => ["chunk_digest", "chunk_index", "generation", "sequence", "transaction_id"]
  | COMMIT => ["chunk_count", "generation", "manifest_digest", "sequence", "transaction_id"]
  | ABORT => ["generation", "reason", "sequence", "transaction_id"]
  | ACK => ["ack_sequence", "generation", "sequence", "status", "transaction_id"]
  | CREDIT => ["available_bytes", "available_frames", "generation", "sequence", "transaction_id"]

end FrameType

inductive ReplicationError where
  /-- `ProtocolError` with its text. -/
  | protocol (text : String)
  /-- `ProtocolError` whose text lists the differing header fields. -/
  | headerFields (frameType : FrameType) (missing unexpected : List Str)
  /-- A plain `ValueError`: an integer has too many decimal digits. -/
  | digits
  /-- `RecursionError` -/
  | recursion
  /-- The `TypeError` of a list or a dictionary that is looked up in a set. -/
  | unhashable
  /-- The `UnicodeEncodeError` of a string with a lone surrogate. -/
  | surrogates
  deriving DecidableEq, Repr

def ReplicationError.isProtocolError : ReplicationError → Bool
  | .protocol _ | .headerFields .. => true
  | .digits | .recursion | .unhashable | .surrogates => false

/-- What comes of an exception of the JSON library where the two decoding errors are caught. -/
def caught (text : String) : JsonError → ReplicationError
  | .unicode | .decode => .protocol text
  | .digits => .digits
  | .recursion => .recursion

inductive AckStatus where
  | ok
  | duplicate
  | committed
  | aborted
  | rejected
  deriving DecidableEq, Repr

namespace AckStatus

def text : AckStatus → String
  | ok => "ok"
  | duplicate => "duplicate"
  | committed => "committed"
  | aborted => "aborted"
  | rejected => "rejected"

/-- Membership in `_ACK_STATUSES`. -/
def ofJson? (v : Json) : Option AckStatus :=
  [ok, duplicate, committed, aborted, rejected].find? fun s => v = .str s.text

@[simp] theorem ofJson?_text (s : AckStatus) : ofJson? (.str s.text) = some s := by
  cases s <;> decide

/-- The check of a status: a list or a dictionary cannot be looked up in a set. -/
def check : Json → Except ReplicationError AckStatus
  | .arr _ | .obj _ => .error .unhashable
  | v => match ofJson? v with
    | some status => .ok status
    | none => .error (.protocol "invalid ACK status")

@[simp] theorem check_text (s : AckStatus) : check (.str s.text) = .ok s := by
  rw [check, ofJson?_text]
  all_goals simp

end AckStatus

def maxHeaderBytes : ℕ := 2 ^ 20
def maxPayloadBytes : ℕ := 16 * 2 ^ 20
def prefixSize : ℕ := 16
def maxFrameBytes : ℕ := prefixSize + maxHeaderBytes + maxPayloadBytes

/-- Bytes of one code point in UTF-8. -/
def utf8Width (code : ℕ) : ℕ :=
  if code < 0x80 then 1 else if code < 0x800 then 2 else if code < 0x10000 then 3 else 4

def utf8Size (s : Str) : ℕ := (s.codes.map utf8Width).sum

/-- An abort reason: a UTF-8 string of at most 256 bytes. -/
structure Reason where
  text : Str
  valid : (text.encodable ∧ utf8Size text ≤ 256)
  deriving DecidableEq, Repr

/-- The check of a reason: a lone surrogate cannot be encoded. -/
def Reason.check : Json → Except ReplicationError Reason
  | .str s =>
      if he : s.encodable then
        if hs : utf8Size s ≤ 256 then .ok ⟨s, he, hs⟩
        else .error (.protocol "reason must be a UTF-8 string of at most 256 bytes")
      else .error .surrogates
  | _ => .error (.protocol "reason must be a UTF-8 string of at most 256 bytes")

@[simp] theorem Reason.check_text (r : Reason) : Reason.check (.str r.text) = .ok r := by
  simp [check, r.valid]

/-- The header fields that only one frame type has. -/
inductive Fields where
  | begin (contextDigest identityDigest : Digest)
  | putChunk (chunkIndex : ℕ) (chunkDigest : Digest)
  | commit (manifestDigest : Digest) (chunkCount : ℕ+)
  | abort (reason : Reason)
  | ack (ackSequence : ℕ) (status : AckStatus)
  | credit (availableBytes availableFrames : ℕ)
  deriving DecidableEq, Repr

namespace Fields

def frameType : Fields → FrameType
  | begin .. => .BEGIN
  | putChunk .. => .PUT_CHUNK
  | commit .. => .COMMIT
  | abort .. => .ABORT
  | ack .. => .ACK
  | credit .. => .CREDIT

def entries : Fields → List (Str × Json)
  | begin contextDigest identityDigest =>
      [("context_digest", contextDigest.json), ("identity_digest", identityDigest.json)]
  | putChunk chunkIndex chunkDigest =>
      [("chunk_index", .int chunkIndex), ("chunk_digest", chunkDigest.json)]
  | commit manifestDigest chunkCount =>
      [("manifest_digest", manifestDigest.json), ("chunk_count", .int (chunkCount : ℕ))]
  | abort reason => [("reason", .str reason.text)]
  | ack ackSequence status => [("ack_sequence", .int ackSequence), ("status", .str status.text)]
  | credit availableBytes availableFrames =>
      [("available_bytes", .int availableBytes), ("available_frames", .int availableFrames)]

end Fields

structure Header where
  transactionId : TransactionId
  generation : ℕ
  sequence : ℕ
  fields : Fields
  deriving DecidableEq, Repr

/-- The dictionary display of a header. -/
def Header.entries (h : Header) : List (Str × Json) :=
  ("transaction_id", h.transactionId.json) :: ("generation", .int h.generation) ::
    ("sequence", .int h.sequence) :: h.fields.entries

def Header.json (h : Header) : Json := .object h.entries

def nonnegativeInt? : Json → Option ℕ
  | .int n => if 0 ≤ n then some n.toNat else none
  | _ => none

@[simp] theorem nonnegativeInt?_int (n : ℕ) : nonnegativeInt? (.int n) = some n := by
  simp [nonnegativeInt?]

def positiveInt? (v : Json) : Option ℕ+ :=
  match nonnegativeInt? v with
  | some n => if h : 0 < n then some ⟨n, h⟩ else none
  | none => none

@[simp] theorem positiveInt?_int (n : ℕ+) : positiveInt? (.int (n : ℕ)) = some n := by
  simp [positiveInt?]
  rfl

/-- Read a field whose check raises `ProtocolError(message)`. -/
def required (header : Json) (name : String) (check : Json → Option α) (message : String) :
    Except ReplicationError α :=
  match (header.get? name).bind check with
  | some a => .ok a
  | none => .error (.protocol message)

def requiredInt (header : Json) (name : String) : Except ReplicationError ℕ :=
  required header name nonnegativeInt? (name ++ " must be a nonnegative integer")

def requiredDigest (header : Json) (name : String) : Except ReplicationError Digest :=
  required header name Hex.ofJson? (name ++ " must be a lowercase SHA-256 digest")

def validateFields (header : Json) : FrameType → Except ReplicationError Fields
  | .BEGIN => do
      let contextDigest ← requiredDigest header "context_digest"
      let identityDigest ← requiredDigest header "identity_digest"
      return .begin contextDigest identityDigest
  | .PUT_CHUNK => do
      let chunkIndex ← requiredInt header "chunk_index"
      let chunkDigest ← requiredDigest header "chunk_digest"
      return .putChunk chunkIndex chunkDigest
  | .COMMIT => do
      let manifestDigest ← requiredDigest header "manifest_digest"
      let chunkCount ← required header "chunk_count" positiveInt?
        "chunk_count must be a positive integer"
      return .commit manifestDigest chunkCount
  | .ABORT => do
      let reason ← Reason.check (header.get? "reason" |>.getD .null)
      return .abort reason
  | .ACK => do
      let ackSequence ← requiredInt header "ack_sequence"
      let status ← AckStatus.check (header.get? "status" |>.getD .null)
      return .ack ackSequence status
  | .CREDIT => do
      let availableBytes ← requiredInt header "available_bytes"
      let availableFrames ← requiredInt header "available_frames"
      return .credit availableBytes availableFrames

/-- `_validate_header`, which also returns what it has checked. -/
def validateHeader (frameType : FrameType) (header : Json) : Except ReplicationError Header := do
  let missing := frameType.fields.filter fun k => k ∉ header.keys
  let unexpected := header.keys.filter fun k => k ∉ frameType.fields
  if missing ≠ [] ∨ unexpected ≠ [] then
    throw (.headerFields frameType missing unexpected)
  let transactionId ← required header "transaction_id" Hex.ofJson?
    "transaction_id must be 32 lowercase hex characters"
  let generation ← requiredInt header "generation"
  let sequence ← requiredInt header "sequence"
  let fields ← validateFields header frameType
  return ⟨transactionId, generation, sequence, fields⟩

/-- The payload checks of `Frame.__post_init__`. -/
def checkPayload (frameType : FrameType) (payload : Bytes) : Except ReplicationError Unit := do
  if frameType ∈ [.BEGIN, .ABORT, .ACK, .CREDIT] ∧ payload ≠ [] then
    throw (.protocol (frameType.name ++ " must not carry a payload"))
  if frameType ∈ [.PUT_CHUNK, .COMMIT] ∧ payload = [] then
    throw (.protocol (frameType.name ++ " requires a payload"))
  if maxPayloadBytes < payload.length then
    throw (.protocol "frame payload exceeds protocol maximum")

structure Frame extends Header where
  payload : Bytes
  valid : checkPayload fields.frameType payload = .ok ()

namespace Frame

def frameType (f : Frame) : FrameType := f.fields.frameType

def header (f : Frame) : Json := f.toHeader.json

theorem ext {f g : Frame} (hh : f.toHeader = g.toHeader) (hp : f.payload = g.payload) : f = g := by
  cases f
  cases g
  cases hh
  cases hp
  rfl

instance : DecidableEq Frame := fun f g =>
  decidable_of_iff (f.toHeader = g.toHeader ∧ f.payload = g.payload)
    ⟨fun h => ext h.1 h.2, fun h => by rw [h]; exact ⟨rfl, rfl⟩⟩

/-- `Frame.__post_init__`. -/
def make (frameType : FrameType) (header : Json) (payload : Bytes) :
    Except ReplicationError Frame :=
  match validateHeader frameType header with
  | .error e => .error e
  | .ok h =>
      match hv : checkPayload h.fields.frameType payload with
      | .error e => .error e
      | .ok () => .ok ⟨h, payload, hv⟩

/-- `PREFIX.pack`. -/
def packPrefix (frameType : FrameType) (headerBytes payloadBytes : ℕ) : Bytes :=
  [0x53, 0x50, 0x52, 0x50, 1, UInt8.ofNat frameType.code, 0, 0] ++
    FixedWidth.big 4 headerBytes ++ FixedWidth.big 4 payloadBytes

def encode (f : Frame) : Except ReplicationError Bytes :=
  match canonicalJson? f.header with
  | none => .error .digits
  | some encodedHeader =>
      if maxHeaderBytes < encodedHeader.length then
        .error (.protocol "frame header exceeds protocol maximum")
      else .ok (packPrefix f.frameType encodedHeader.length f.payload.length ++
        encodedHeader ++ f.payload)

end Frame

/-! ## Stream decoding -/

structure Prefix where
  magic : Bytes
  version : ℕ
  rawType : ℕ
  flags : ℕ
  headerBytes : ℕ
  payloadBytes : ℕ
  deriving DecidableEq

/-- `PREFIX.unpack_from`. -/
def unpackPrefix (buffer : Bytes) : Prefix :=
  { magic := buffer.take 4
    version := FixedWidth.bigValue ((buffer.drop 4).take 1)
    rawType := FixedWidth.bigValue ((buffer.drop 5).take 1)
    flags := FixedWidth.bigValue ((buffer.drop 6).take 2)
    headerBytes := FixedWidth.bigValue ((buffer.drop 8).take 4)
    payloadBytes := FixedWidth.bigValue ((buffer.drop 12).take 4) }

/-- The frame that a complete header and payload give. -/
def decodeFrame (json : JsonLibrary) (rawType : ℕ) (encodedHeader payload : Bytes) :
    Except ReplicationError Frame :=
  match json.loads encodedHeader with
  | .error e => .error (caught "invalid frame header JSON" e)
  | .ok decoded =>
      if ¬ decoded.isObject then .error (.protocol "frame header must be a JSON object")
      else match json.dumps decoded with
      | .error e => .error (caught "" e)
      | .ok canonical =>
          if encodedHeader ≠ canonical then
            .error (.protocol "frame header is not canonical JSON")
          else match FrameType.ofCode? rawType with
          | none => .error (.protocol "unknown frame type")
          | some frameType => Frame.make frameType decoded payload

/-- One turn of the decoding loop, with the bytes left in the buffer. -/
inductive Decoded where
  | incomplete
  | frame (f : Frame) (rest : Bytes)
  | failed (e : ReplicationError) (rest : Bytes)

structure FrameStreamDecoder where
  json : JsonLibrary
  maxFrameBytes : ℕ
  maxBufferBytes : ℕ
  prefixFits : prefixSize ≤ maxFrameBytes
  frameFits : maxFrameBytes ≤ maxBufferBytes

namespace FrameStreamDecoder

def default : FrameStreamDecoder :=
  ⟨.unlimited, Replication.maxFrameBytes, Replication.maxFrameBytes * 2, by decide, by decide⟩

def next (d : FrameStreamDecoder) (buffer : Bytes) : Decoded :=
  if buffer.length < prefixSize then .incomplete
  else
    let p := unpackPrefix buffer
    let total := prefixSize + p.headerBytes + p.payloadBytes
    if p.magic ≠ [0x53, 0x50, 0x52, 0x50] ∨ p.version ≠ 1 ∨ p.flags ≠ 0 then
      .failed (.protocol "invalid replication frame prefix") buffer
    else if maxHeaderBytes < p.headerBytes ∨ maxPayloadBytes < p.payloadBytes then
      .failed (.protocol "declared replication frame exceeds protocol maximum") buffer
    else if d.maxFrameBytes < total then
      .failed (.protocol "declared replication frame exceeds configured maximum") buffer
    else if buffer.length < total then .incomplete
    else match decodeFrame d.json p.rawType ((buffer.drop prefixSize).take p.headerBytes)
        ((buffer.drop (prefixSize + p.headerBytes)).take p.payloadBytes) with
      | .error e => .failed e (buffer.drop total)
      | .ok f => .frame f (buffer.drop total)

theorem next_shorter {d : FrameStreamDecoder} {buffer rest : Bytes} {f : Frame}
    (h : d.next buffer = .frame f rest) : rest.length < buffer.length := by
  unfold next at h
  dsimp only at h
  split_ifs at h with h1 h2 h3 h4 h5
  split at h
  · cases h
  · cases h
    rw [List.length_drop]
    unfold prefixSize at *
    omega

/-- The frames at the head of the buffer and what stays in it. An error keeps no frame. -/
def drain (d : FrameStreamDecoder) (buffer : Bytes) :
    Except ReplicationError (List Frame) × Bytes :=
  match _h : d.next buffer with
  | .incomplete => (.ok [], buffer)
  | .failed e rest => (.error e, rest)
  | .frame f rest =>
      let (frames, left) := drain d rest
      (frames.map (f :: ·), left)
termination_by buffer.length
decreasing_by exact next_shorter _h

def feed (d : FrameStreamDecoder) (buffer data : Bytes) :
    Except ReplicationError (List Frame) × Bytes :=
  if d.maxBufferBytes < buffer.length + data.length then
    (.error (.protocol "replication receive buffer limit exceeded"), buffer)
  else d.drain (buffer ++ data)

end FrameStreamDecoder

/-! ## Commit records -/

structure CommitRecord where
  transactionId : TransactionId
  generation : ℕ
  contextDigest : Digest
  chunkDigests : List Digest
  deriving DecidableEq, Repr

def CommitRecord.entries (r : CommitRecord) : List (Str × Json) :=
  [("transaction_id", r.transactionId.json), ("generation", .int r.generation),
    ("context_digest", r.contextDigest.json),
    ("chunk_digests", .arr (r.chunkDigests.map Hex.json))]

def CommitRecord.json (r : CommitRecord) : Json := .object r.entries

/-- The bytes of a checked record. -/
def CommitRecord.encode (r : CommitRecord) : Except ReplicationError Bytes :=
  match canonicalJson? r.json with
  | none => .error .digits
  | some encoded => .ok encoded

def checkChunkDigests : List Json → Except ReplicationError (List Digest)
  | [] => .ok []
  | digest :: rest =>
      match Hex.ofJson? digest with
      | none => .error (.protocol "commit chunk digest must be lowercase SHA-256")
      | some d => (checkChunkDigests rest).map (d :: ·)

/-- The checks of `encode_commit_record`. The common fields are checked as those of a
BEGIN header are. -/
def checkCommitRecord (transactionId generation contextDigest : Json) (chunkDigests : List Json) :
    Except ReplicationError CommitRecord :=
  if chunkDigests = [] then .error (.protocol "commit record requires at least one chunk")
  else match validateHeader .BEGIN (.object
    [("transaction_id", transactionId), ("generation", generation), ("sequence", .int 0),
      ("context_digest", contextDigest), ("identity_digest", zeroDigest.json)]) with
  | .ok ⟨transactionId, generation, _, .begin contextDigest _⟩ =>
      (checkChunkDigests chunkDigests).map fun digests =>
        ⟨transactionId, generation, contextDigest, digests⟩
  | .ok _ => .error (.protocol "commit record requires BEGIN fields")
  | .error e => .error e

/-- `encode_commit_record`. -/
def encodeCommitRecord (transactionId generation contextDigest : Json)
    (chunkDigests : List Json) : Except ReplicationError Bytes :=
  (checkCommitRecord transactionId generation contextDigest chunkDigests).bind
    CommitRecord.encode

/-- `decode_commit_record` under a JSON library. -/
def decodeCommitRecordWith (json : JsonLibrary) (payload : Bytes) : Except ReplicationError CommitRecord :=
  match json.loads payload with
  | .error e => .error (caught "invalid commit record JSON" e)
  | .ok record =>
      if ¬ record.isObject ∨ ¬ record.hasKeys
          ["transaction_id", "generation", "context_digest", "chunk_digests"] then
        .error (.protocol "invalid commit record fields")
      else match record.get? "transaction_id", record.get? "generation",
          record.get? "context_digest", record.get? "chunk_digests" with
      | some transactionId, some generation, some contextDigest, some (.arr (d :: digests)) =>
          match checkCommitRecord transactionId generation contextDigest (d :: digests) with
          | .error e => .error e
          | .ok checked =>
              match json.dumps checked.json with
              | .error e => .error (caught "" e)
              | .ok expected =>
                  if expected ≠ payload then
                    .error (.protocol "commit record is not canonical")
                  else .ok checked
      | _, _, _, _ => .error (.protocol "commit record requires chunk digests")

/-- `decode_commit_record` -/
def decodeCommitRecord (payload : Bytes) : Except ReplicationError CommitRecord :=
  decodeCommitRecordWith .unlimited payload

end SparkCache.Replication
