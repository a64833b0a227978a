import SparkCache.Replication.Fragments

/-!
# What a peer's bytes can raise

Handlers of a connection catch `ProtocolError`. The other exceptions come from the JSON library, from the
lookup of a status that is no string and from the encoding of a reason. A frame or a record that is accepted
is the one whose encoding was received.
-/
namespace SparkCache.Replication

/-! ## Exceptions that are not `ProtocolError` -/

/-- An exception leaves that is not a `ProtocolError`. -/
def Escapes (r : Except ReplicationError α) : Prop := ∃ e, r = .error e ∧ e.isProtocolError = false

@[simp] theorem not_escapes_ok (a : α) : ¬ Escapes (.ok a) := by
  rintro ⟨e, he, -⟩
  cases he

@[simp] theorem not_escapes_pure (a : α) : ¬ Escapes (pure a) := not_escapes_ok a

@[simp] theorem escapes_error (e : ReplicationError) :
    Escapes (.error e : Except ReplicationError α) ↔ e.isProtocolError = false := by
  simp [Escapes]

theorem escapes_bind (r : Except ReplicationError α) (f : α → Except ReplicationError β) :
    Escapes (r >>= f) ↔ Escapes r ∨ ∃ a, r = .ok a ∧ Escapes (f a) := by
  cases r with
  | error e => simp [bind, Except.bind]
  | ok a => simp [bind, Except.bind]

@[simp] theorem escapes_map (r : Except ReplicationError α) (f : α → β) : Escapes (r.map f) ↔ Escapes r := by
  cases r with
  | error e => simp [Except.map]
  | ok a => simp [Except.map]

@[simp] theorem escapes_fmap (r : Except ReplicationError α) (f : α → β) : Escapes (f <$> r) ↔ Escapes r :=
  escapes_map r f

@[simp] theorem not_escapes_required (header : Json) (name : String) (check : Json → Option α) (message : String) :
    ¬ Escapes (required header name check message) := by
  unfold required
  split
  · simp
  · simp [ReplicationError.isProtocolError]

theorem required_eq_ok {header : Json} {name : String} {check : Json → Option α} {message : String} {a : α} :
    required header name check message = .ok a ↔ ∃ v, header.get? name = some v ∧ check v = some a := by
  unfold required
  rw [← Option.bind_eq_some_iff]
  split
  · rename_i b hb
    simp [hb]
  · rename_i hnone
    simp [hnone]

theorem caught_escapes {text : String} {e : JsonError} :
    (caught text e).isProtocolError = false ↔ e = .digits ∨ e = .recursion := by
  cases e <;> simp [caught, ReplicationError.isProtocolError]

/-! ## Checked headers -/

theorem nonnegativeInt?_eq_some {v : Json} {n : ℕ} : nonnegativeInt? v = some n ↔ v = .int n := by
  constructor
  · intro h
    unfold nonnegativeInt? at h
    split at h
    · split_ifs at h with hn
      cases h
      rw [Int.toNat_of_nonneg hn]
    · cases h
  · rintro rfl
    exact nonnegativeInt?_int n

theorem positiveInt?_eq_some {v : Json} {n : ℕ+} : positiveInt? v = some n ↔ v = .int (n : ℕ) := by
  constructor
  · intro h
    unfold positiveInt? at h
    split at h
    · rename_i m hm
      split_ifs at h
      cases h
      exact nonnegativeInt?_eq_some.mp hm
    · cases h
  · rintro rfl
    exact positiveInt?_int n

theorem AckStatus.check_eq_ok {v : Json} {s : AckStatus} : AckStatus.check v = .ok s ↔ v = .str s.text := by
  constructor
  · intro h
    unfold check at h
    split at h
    · cases h
    · cases h
    · split at h
      · rename_i status hstatus
        cases h
        simpa using List.find?_some hstatus
      · cases h
  · rintro rfl
    exact check_text s

theorem Reason.check_eq_ok {v : Json} {r : Reason} : Reason.check v = .ok r ↔ v = .str r.text := by
  constructor
  · intro h
    unfold check at h
    split at h
    · split_ifs at h
      cases h
      rfl
    · cases h
  · rintro rfl
    exact check_text r

theorem AckStatus.check_escapes {v : Json} :
    Escapes (AckStatus.check v) ↔ (∃ items, v = .arr items) ∨ ∃ fields, v = .obj fields := by
  unfold check
  split
  · simp [ReplicationError.isProtocolError]
  · simp [ReplicationError.isProtocolError]
  · rename_i harr hobj
    constructor
    · intro h
      split at h
      · exact absurd h (not_escapes_ok _)
      · simp [ReplicationError.isProtocolError] at h
    · rintro (⟨items, rfl⟩ | ⟨fields, rfl⟩)
      · exact absurd rfl (harr items)
      · exact absurd rfl (hobj fields)

theorem Reason.check_escapes {v : Json} :
    Escapes (Reason.check v) ↔ ∃ s, v = .str s ∧ s.encodable = false := by
  unfold check
  split
  · rename_i s
    split_ifs with he hs
    · simp [he]
    · simp [he, ReplicationError.isProtocolError]
    · simp [he, ReplicationError.isProtocolError]
  · rename_i hstr
    constructor
    · intro h
      simp [ReplicationError.isProtocolError] at h
    · rintro ⟨s, rfl, -⟩
      exact absurd rfl (hstr s)

/-- The checks of `_validate_header` that come before those of one frame type. -/
structure CommonFields (t : FrameType) (header : Json) (transactionId : TransactionId) (generation sequence : ℕ) :
    Prop where
  keys : ∀ k, k ∈ header.keys ↔ k ∈ t.fields
  transactionId : header.get? "transaction_id" = some transactionId.json
  generation : header.get? "generation" = some (.int generation)
  sequence : header.get? "sequence" = some (.int sequence)

theorem filter_keys_eq_nil {keys expected : List Str} :
    ((expected.filter fun k => k ∉ keys) = [] ∧ (keys.filter fun k => k ∉ expected) = []) ↔
      ∀ k, k ∈ keys ↔ k ∈ expected := by
  simp only [List.filter_eq_nil_iff, decide_eq_true_eq, not_not]
  exact ⟨fun h k => ⟨h.2 k, h.1 k⟩, fun h => ⟨fun k => (h k).mpr, fun k => (h k).mp⟩⟩

theorem validateHeader_eq {t : FrameType} {header : Json} {transactionId : TransactionId} {generation sequence : ℕ}
    (h : CommonFields t header transactionId generation sequence) :
    validateHeader t header = (validateFields header t).map fun fields => ⟨transactionId, generation, sequence, fields⟩ := by
  obtain ⟨hmissing, hunexpected⟩ := filter_keys_eq_nil.mpr h.keys
  unfold validateHeader
  simp only [hmissing, hunexpected, ne_eq, not_true_eq_false, or_self, ↓reduceIte]
  simp only [requiredInt, required, h.transactionId, h.generation, h.sequence, Option.bind_some, Hex.ofJson?_json,
    nonnegativeInt?_int, bind, Except.bind, pure, Except.pure]
  cases validateFields header t with
  | error e => rfl
  | ok fields => rfl

/-- The first check of a run that raises no `ProtocolError` has passed. -/
theorem required_bind {header : Json} {name : String} {check : Json → Option α} {message : String}
    {f : α → Except ReplicationError β} {r : Except ReplicationError β}
    (h : (required header name check message >>= f) = r) (hr : Escapes r ∨ ∃ b, r = .ok b) :
    ∃ a v, header.get? name = some v ∧ check v = some a ∧ f a = r := by
  cases hfirst : required header name check message with
  | error e =>
      have hno := not_escapes_required header name check message
      rw [hfirst] at h hno
      subst h
      obtain ⟨e', he, hprotocol⟩ | ⟨b, hb⟩ := hr
      · cases he
        exact absurd ⟨e, rfl, hprotocol⟩ hno
      · cases hb
  | ok a =>
      obtain ⟨v, hget, hcheck⟩ := required_eq_ok.mp hfirst
      rw [hfirst] at h
      exact ⟨a, v, hget, hcheck, h⟩

/-- A header that fails an earlier check is rejected with a `ProtocolError`. -/
theorem validateHeader_common {t : FrameType} {header : Json}
    (h : Escapes (validateHeader t header) ∨ ∃ checked, validateHeader t header = .ok checked) :
    ∃ transactionId generation sequence, CommonFields t header transactionId generation sequence := by
  generalize hr : validateHeader t header = r at h
  have hkeys : (t.fields.filter fun k => k ∉ header.keys) = [] ∧ (header.keys.filter fun k => k ∉ t.fields) = [] := by
    by_contra hdiffer
    rw [not_and_or] at hdiffer
    unfold validateHeader at hr
    simp only [ne_eq, hdiffer, ↓reduceIte] at hr
    subst hr
    simp [throw, throwThe, MonadExceptOf.throw, bind, Except.bind, ReplicationError.isProtocolError] at h
  unfold validateHeader at hr
  simp only [hkeys, ne_eq, not_true_eq_false, or_self, ↓reduceIte] at hr
  obtain ⟨transactionId, v, hv, htransaction, hr⟩ := required_bind hr h
  obtain ⟨generation, w, hw, hgeneration, hr⟩ := required_bind hr h
  obtain ⟨sequence, x, hx, hsequence, hr⟩ := required_bind hr h
  rw [Hex.ofJson?_eq_some] at htransaction
  rw [nonnegativeInt?_eq_some] at hgeneration hsequence
  subst htransaction hgeneration hsequence
  exact ⟨transactionId, generation, sequence, filter_keys_eq_nil.mp hkeys, hv, hw, hx⟩

/-- A value that the checks of one frame type stumble over. -/
def HostileFields (header : Json) : FrameType → Prop
  | .ABORT => ∃ s, header.get? "reason" = some (.str s) ∧ s.encodable = false
  | .ACK => (∃ n : ℕ, header.get? "ack_sequence" = some (.int n)) ∧
      ((∃ items, header.get? "status" = some (.arr items)) ∨ ∃ fields, header.get? "status" = some (.obj fields))
  | _ => False

/-- A header whose common fields are valid and whose other fields the checks stumble over. -/
def HostileHeader (t : FrameType) (header : Json) : Prop :=
  (∃ transactionId generation sequence, CommonFields t header transactionId generation sequence) ∧
    HostileFields header t

theorem getD_null_eq {found : Option Json} {v : Json} (h : v ≠ .null) : found.getD .null = v ↔ found = some v := by
  cases found with
  | none => simp [h.symm]
  | some w => simp

theorem validateFields_escapes {header : Json} {t : FrameType} :
    Escapes (validateFields header t) ↔ HostileFields header t := by
  cases t with
  | ABORT =>
      simp [validateFields, HostileFields, Reason.check_escapes, getD_null_eq]
  | ACK =>
      simp [validateFields, HostileFields, escapes_bind, AckStatus.check_escapes, getD_null_eq, requiredInt,
        required_eq_ok, nonnegativeInt?_eq_some]
  | _ => simp [validateFields, HostileFields, escapes_bind, requiredInt, requiredDigest]

theorem validateHeader_escapes {t : FrameType} {header : Json} :
    Escapes (validateHeader t header) ↔ HostileHeader t header := by
  constructor
  · intro h
    obtain ⟨transactionId, generation, sequence, hcommon⟩ := validateHeader_common (.inl h)
    rw [validateHeader_eq hcommon, escapes_map, validateFields_escapes] at h
    exact ⟨⟨transactionId, generation, sequence, hcommon⟩, h⟩
  · rintro ⟨⟨transactionId, generation, sequence, hcommon⟩, h⟩
    rwa [validateHeader_eq hcommon, escapes_map, validateFields_escapes]

/-- The checked fields are the values that the header has. -/
theorem validateFields_eq_ok {header : Json} {t : FrameType} {fields : Fields}
    (h : validateFields header t = .ok fields) :
    fields.frameType = t ∧ ∀ entry ∈ fields.entries, header.get? entry.1 = some entry.2 := by
  cases t <;>
    simp only [validateFields, Pages.bind_eq_ok, requiredInt, requiredDigest, required_eq_ok, Hex.ofJson?_eq_some,
      nonnegativeInt?_eq_some, positiveInt?_eq_some, AckStatus.check_eq_ok, Reason.check_eq_ok, pure, Except.pure,
      Except.ok.injEq] at h
  · obtain ⟨contextDigest, ⟨_, hcontext, rfl⟩, identityDigest, ⟨_, hidentity, rfl⟩, rfl⟩ := h
    simp [Fields.frameType, Fields.entries, hcontext, hidentity]
  · obtain ⟨chunkIndex, ⟨_, hindex, rfl⟩, chunkDigest, ⟨_, hchunk, rfl⟩, rfl⟩ := h
    simp [Fields.frameType, Fields.entries, hindex, hchunk]
  · obtain ⟨manifestDigest, ⟨_, hmanifest, rfl⟩, chunkCount, ⟨_, hcount, rfl⟩, rfl⟩ := h
    simp [Fields.frameType, Fields.entries, hmanifest, hcount]
  · obtain ⟨reason, hreason, rfl⟩ := h
    rw [getD_null_eq (by simp)] at hreason
    simp [Fields.frameType, Fields.entries, hreason]
  · obtain ⟨ackSequence, ⟨_, hsequence, rfl⟩, status, hstatus, rfl⟩ := h
    rw [getD_null_eq (by simp)] at hstatus
    simp [Fields.frameType, Fields.entries, hsequence, hstatus]
  · obtain ⟨availableBytes, ⟨_, hbytes, rfl⟩, availableFrames, ⟨_, hframes, rfl⟩, rfl⟩ := h
    simp [Fields.frameType, Fields.entries, hbytes, hframes]

/-- A dictionary that is accepted is the one its checked header gives back. -/
theorem validateHeader_eq_ok {t : FrameType} {header : Json} {h : Header} (hobject : header.isObject)
    (hsorted : header.SortedKeys) (hv : validateHeader t header = .ok h) : header = h.json ∧ h.fields.frameType = t := by
  obtain ⟨transactionId, generation, sequence, hcommon⟩ := validateHeader_common (.inr ⟨h, hv⟩)
  rw [validateHeader_eq hcommon] at hv
  cases hfields : validateFields header t with
  | error e =>
      rw [hfields] at hv
      cases hv
  | ok fields =>
      rw [hfields] at hv
      cases hv
      obtain ⟨htype, hvalues⟩ := validateFields_eq_ok hfields
      refine ⟨hsorted.ext (Json.object_sortedKeys _) hobject rfl ?_ ?_, htype⟩
      · intro k
        rw [hcommon.keys, Header.mem_keys_json]
        dsimp only
        rw [htype]
      · intro k hk
        rw [hcommon.keys] at hk
        have hmem : k ∈ (Header.mk transactionId generation sequence fields).json.keys := by
          rw [Header.mem_keys_json]
          dsimp only
          rwa [htype]
        rw [show (Header.mk transactionId generation sequence fields).json = .object _ from rfl,
          Json.mem_keys_object] at hmem
        obtain ⟨⟨key, value⟩, hentry, rfl⟩ := List.mem_map.mp hmem
        rw [Header.get?_json, Json.getField_of_mem (Header.entries_nodup _) hentry]
        simp only [Header.entries, List.mem_cons] at hentry
        obtain heq | heq | heq | hentry := hentry
        · cases heq
          exact hcommon.transactionId
        · cases heq
          exact hcommon.generation
        · cases heq
          exact hcommon.sequence
        · exact hvalues _ hentry

/-! ## Frames -/

theorem Frame.make_eq_ok {t : FrameType} {header : Json} {payload : Bytes} {f : Frame} (hobject : header.isObject)
    (hsorted : header.SortedKeys) (h : Frame.make t header payload = .ok f) :
    f.header = header ∧ f.frameType = t ∧ f.payload = payload := by
  unfold Frame.make at h
  split at h
  · cases h
  · rename_i checked hchecked
    obtain ⟨hheader, htype⟩ := validateHeader_eq_ok hobject hsorted hchecked
    split at h
    · cases h
    · cases h
      exact ⟨hheader.symm, htype, rfl⟩

theorem checkPayload_protocol {t : FrameType} {payload : Bytes} : ¬ Escapes (checkPayload t payload) := by
  unfold checkPayload
  split_ifs <;>
    simp [escapes_bind, throw, throwThe, MonadExceptOf.throw, ReplicationError.isProtocolError, pure, Except.pure]

theorem Frame.make_escapes {t : FrameType} {header : Json} {payload : Bytes} :
    Escapes (Frame.make t header payload) ↔ HostileHeader t header := by
  rw [← validateHeader_escapes]
  unfold Frame.make
  split
  · rename_i e he
    rw [he, escapes_error, escapes_error]
  · rename_i checked hchecked
    rw [hchecked]
    split
    · rename_i e he
      have hno := @checkPayload_protocol checked.fields.frameType payload
      rw [he] at hno
      rw [escapes_error] at hno ⊢
      simp [hno]
    · simp

/-- What the bytes of a header raise: they are given up on, or they are the canonical text of a header whose
checks stumble. -/
def HostileBytes (json : JsonLibrary) (rawType : ℕ) (encodedHeader : Bytes) : Prop :=
  json.loads encodedHeader = .error .digits ∨ json.loads encodedHeader = .error .recursion ∨
    ∃ decoded, json.loads encodedHeader = .ok decoded ∧ decoded.isObject ∧
      (json.deep decoded ∨ encodedHeader = canonicalJson decoded ∧
        ∃ t, FrameType.ofCode? rawType = some t ∧ HostileHeader t decoded)

theorem decodeFrame_escapes {json : JsonLibrary} {rawType : ℕ} {encodedHeader payload : Bytes} :
    Escapes (decodeFrame json rawType encodedHeader payload) ↔ HostileBytes json rawType encodedHeader := by
  unfold decodeFrame HostileBytes
  cases hloads : json.loads encodedHeader with
  | error e => simp [caught_escapes]
  | ok decoded =>
      have hprintable := json.printable hloads
      by_cases hobject : decoded.isObject = true
      · by_cases hdeep : json.deep decoded = true
        · have hdumps : json.dumps decoded = .error .recursion := by rw [JsonLibrary.dumps, if_pos hdeep]
          simp [hobject, hdumps, hdeep, caught, ReplicationError.isProtocolError]
        · have hdumps : json.dumps decoded = .ok (canonicalJson decoded) :=
            JsonLibrary.dumps_eq_ok.mpr ⟨by simpa using hdeep, hprintable, rfl⟩
          by_cases hcanonical : encodedHeader = canonicalJson decoded
          · cases htype : FrameType.ofCode? rawType with
            | none => simp [hobject, hdumps, hdeep, ← hcanonical, ReplicationError.isProtocolError]
            | some t => simp [hobject, hdumps, hdeep, ← hcanonical, Frame.make_escapes]
          · simp [hobject, hdumps, hdeep, hcanonical, ReplicationError.isProtocolError]
      · simp [hobject, ReplicationError.isProtocolError]

theorem decodeFrame_eq_ok {json : JsonLibrary} {rawType : ℕ} {encodedHeader payload : Bytes} {f : Frame}
    (h : decodeFrame json rawType encodedHeader payload = .ok f) :
    FrameType.ofCode? rawType = some f.frameType ∧ encodedHeader = canonicalJson f.header ∧
      f.header.printable = true ∧ f.payload = payload := by
  unfold decodeFrame at h
  split at h
  · cases h
  · rename_i decoded hloads
    split_ifs at h with hobject
    split at h
    · cases h
    · rename_i canonical hdumps
      split_ifs at h with hcanonical
      split at h
      · cases h
      · rename_i t htype
        rw [ne_eq, not_not] at hcanonical
        obtain ⟨-, hprintable, hbytes⟩ := JsonLibrary.dumps_eq_ok.mp hdumps
        obtain ⟨hheader, hframeType, hpayload⟩ := Frame.make_eq_ok hobject (json.sorted hloads) h
        rw [hheader, hframeType]
        exact ⟨htype, hcanonical.trans hbytes, hprintable, hpayload⟩

theorem FrameType.ofCode?_eq_some {n : ℕ} {t : FrameType} : FrameType.ofCode? n = some t ↔ n = t.code := by
  constructor
  · intro h
    unfold ofCode? at h
    split at h
    all_goals
      cases h
      try rfl
  · rintro rfl
    exact ofCode?_code t

theorem take_prefixSize {buffer : Bytes} {t : FrameType} (hlen : prefixSize ≤ buffer.length)
    (hmagic : (unpackPrefix buffer).magic = [0x53, 0x50, 0x52, 0x50]) (hversion : (unpackPrefix buffer).version = 1)
    (htype : (unpackPrefix buffer).rawType = t.code) (hflags : (unpackPrefix buffer).flags = 0) :
    buffer.take prefixSize =
      Frame.packPrefix t (unpackPrefix buffer).headerBytes (unpackPrefix buffer).payloadBytes := by
  unfold prefixSize at hlen
  have hslice : ∀ start size, start + size ≤ 16 →
      FixedWidth.big size (FixedWidth.bigValue ((buffer.drop start).take size)) = (buffer.drop start).take size := by
    intro start size hsize
    have hwidth : ((buffer.drop start).take size).length = size := by
      rw [List.length_take, List.length_drop]
      omega
    have hback := FixedWidth.big_bigValue ((buffer.drop start).take size)
    rwa [hwidth] at hback
  have hversionByte := hslice 4 1 (by omega)
  have htypeByte := hslice 5 1 (by omega)
  have hflagBytes := hslice 6 2 (by omega)
  have hheaderBytes := hslice 8 4 (by omega)
  have hpayloadBytes := hslice 12 4 (by omega)
  simp only [unpackPrefix] at hmagic hversion htype hflags ⊢
  rw [hversion] at hversionByte
  rw [htype] at htypeByte
  rw [hflags] at hflagBytes
  rw [Frame.packPrefix, hheaderBytes, hpayloadBytes]
  have hsplit : buffer.take prefixSize = buffer.take 4 ++ (buffer.drop 4).take 1 ++ (buffer.drop 5).take 1 ++
      (buffer.drop 6).take 2 ++ (buffer.drop 8).take 4 ++ (buffer.drop 12).take 4 := by
    rw [← List.take_add, ← List.take_add, ← List.take_add, ← List.take_add, ← List.take_add]
    rfl
  rw [hsplit, hmagic, ← hversionByte, ← htypeByte, ← hflagBytes]
  cases t <;> rfl

namespace FrameStreamDecoder

variable {d : FrameStreamDecoder}

/-- The decoder takes exactly encoded frames off its buffer. -/
theorem next_eq_frame {buffer rest : Bytes} {f : Frame} :
    d.next buffer = .frame f rest ↔
      ∃ encoded, f.encode = .ok encoded ∧ encoded.length ≤ d.maxFrameBytes ∧ buffer = encoded ++ rest := by
  constructor
  · intro h
    unfold next at h
    dsimp only at h
    split_ifs at h with hprefix hmagic hdeclared hconfigured hcomplete
    split at h
    · cases h
    · rename_i g hframe
      cases h
      rw [not_lt] at hprefix hconfigured hcomplete
      simp only [not_or, not_lt, ne_eq, not_not] at hmagic hdeclared
      obtain ⟨htype, hheader, hprintable, hpayload⟩ := decodeFrame_eq_ok hframe
      rw [FrameType.ofCode?_eq_some] at htype
      have hhead := take_prefixSize hprefix hmagic.1 hmagic.2.1 htype hmagic.2.2
      have hheaderLength : (canonicalJson f.header).length = (unpackPrefix buffer).headerBytes := by
        rw [← hheader, List.length_take, List.length_drop]
        omega
      have hpayloadLength : f.payload.length = (unpackPrefix buffer).payloadBytes := by
        rw [hpayload, List.length_take, List.length_drop]
        omega
      refine ⟨_, ?_, ?_, (List.take_append_drop (prefixSize + (unpackPrefix buffer).headerBytes +
        (unpackPrefix buffer).payloadBytes) buffer).symm⟩
      · unfold Frame.encode canonicalJson?
        rw [if_pos hprintable]
        dsimp only
        rw [if_neg (by omega), hheaderLength, hpayloadLength, ← hhead, hpayload, ← hheader, ← List.take_add,
          ← List.take_add]
      · rw [List.length_take]
        omega
  · rintro ⟨encoded, hencode, hsize, rfl⟩
    exact next_encode hencode hsize rest

/-- At the head of the buffer is a whole frame whose header raises something else than `ProtocolError`. -/
structure HostileAt (d : FrameStreamDecoder) (buffer : Bytes) : Prop where
  magic : (unpackPrefix buffer).magic = [0x53, 0x50, 0x52, 0x50]
  version : (unpackPrefix buffer).version = 1
  flags : (unpackPrefix buffer).flags = 0
  declared : (unpackPrefix buffer).headerBytes ≤ maxHeaderBytes ∧ (unpackPrefix buffer).payloadBytes ≤ maxPayloadBytes
  configured : prefixSize + (unpackPrefix buffer).headerBytes + (unpackPrefix buffer).payloadBytes ≤ d.maxFrameBytes
  complete : prefixSize + (unpackPrefix buffer).headerBytes + (unpackPrefix buffer).payloadBytes ≤ buffer.length
  hostile : HostileBytes d.json (unpackPrefix buffer).rawType
    ((buffer.drop prefixSize).take (unpackPrefix buffer).headerBytes)

theorem next_failed {buffer : Bytes} :
    (∃ e rest, d.next buffer = .failed e rest ∧ e.isProtocolError = false) ↔ d.HostileAt buffer := by
  constructor
  · rintro ⟨e, rest, h, he⟩
    unfold next at h
    dsimp only at h
    split_ifs at h with hprefix hmagic hdeclared hconfigured hcomplete
    · cases h
      cases he
    · cases h
      cases he
    · cases h
      cases he
    · split at h
      · rename_i e' hframe
        cases h
        simp only [not_or, not_lt, ne_eq, not_not] at hmagic hdeclared hconfigured hcomplete
        exact ⟨hmagic.1, hmagic.2.1, hmagic.2.2, hdeclared, hconfigured, hcomplete,
          decodeFrame_escapes.mp ⟨e, hframe, he⟩⟩
      · cases h
  · intro h
    have hescapes : Escapes (decodeFrame d.json (unpackPrefix buffer).rawType
        ((buffer.drop prefixSize).take (unpackPrefix buffer).headerBytes)
        ((buffer.drop (prefixSize + (unpackPrefix buffer).headerBytes)).take (unpackPrefix buffer).payloadBytes)) :=
      decodeFrame_escapes.mpr h.hostile
    obtain ⟨e, hframe, he⟩ := hescapes
    refine ⟨e, buffer.drop (prefixSize + (unpackPrefix buffer).headerBytes + (unpackPrefix buffer).payloadBytes),
      ?_, he⟩
    have hcomplete := h.complete
    unfold next
    dsimp only
    rw [if_neg (by omega), if_neg (by simp [h.magic, h.version, h.flags]), if_neg (by have := h.declared; omega),
      if_neg (Nat.not_lt.mpr h.configured), if_neg (Nat.not_lt.mpr hcomplete), hframe]

/-- After frames that are accepted comes one whose header raises something else than `ProtocolError`. -/
def HostileStream (d : FrameStreamDecoder) (stream : Bytes) : Prop :=
  ∃ (frames : List Frame) (encodings : List Bytes) (tail : Bytes),
    List.Forall₂ (fun f encoded => Frame.encode f = .ok encoded) frames encodings ∧
    (∀ encoded ∈ encodings, encoded.length ≤ d.maxFrameBytes) ∧ stream = encodings.flatten ++ tail ∧ d.HostileAt tail

theorem HostileAt.not_frame {buffer rest : Bytes} {f : Frame} (h : d.HostileAt buffer) :
    d.next buffer ≠ .frame f rest := by
  obtain ⟨e, left, hnext, -⟩ := next_failed.mpr h
  rw [hnext]
  simp

theorem drain_escapes {buffer : Bytes} : Escapes (d.drain buffer).1 ↔ d.HostileStream buffer := by
  induction hn : buffer.length using Nat.strong_induction_on generalizing buffer with
  | _ n ih =>
      subst hn
      cases hnext : d.next buffer with
      | incomplete =>
          rw [drain_incomplete hnext]
          constructor
          · intro h
            exact absurd h (not_escapes_ok _)
          · rintro ⟨frames, encodings, tail, hencode, hsize, rfl, htail⟩
            cases hencode with
            | nil =>
                obtain ⟨e, left, hfailed, -⟩ := next_failed.mpr htail
                rw [List.flatten_nil, List.nil_append, hfailed] at hnext
                cases hnext
            | cons hfirst hrest =>
                rw [List.forall_mem_cons] at hsize
                rw [List.flatten_cons, List.append_assoc, next_encode hfirst hsize.1] at hnext
                cases hnext
      | failed e rest =>
          rw [drain_failed hnext, escapes_error]
          constructor
          · intro he
            exact ⟨[], [], buffer, .nil, by simp, by simp, next_failed.mp ⟨e, rest, hnext, he⟩⟩
          · rintro ⟨frames, encodings, tail, hencode, hsize, rfl, htail⟩
            cases hencode with
            | nil =>
                obtain ⟨e', left, hfailed, he⟩ := next_failed.mpr htail
                rw [List.flatten_nil, List.nil_append, hfailed] at hnext
                cases hnext
                exact he
            | cons hfirst hrest =>
                rw [List.forall_mem_cons] at hsize
                rw [List.flatten_cons, List.append_assoc, next_encode hfirst hsize.1] at hnext
                cases hnext
      | frame f rest =>
          rw [drain_frame hnext, escapes_map, ih rest.length (next_shorter hnext) rfl]
          obtain ⟨encoded, hf, hfits, hbuffer⟩ := next_eq_frame.mp hnext
          constructor
          · rintro ⟨frames, encodings, tail, hencode, hsize, hrest, htail⟩
            refine ⟨f :: frames, encoded :: encodings, tail, .cons hf hencode, ?_, ?_, htail⟩
            · rw [List.forall_mem_cons]
              exact ⟨hfits, hsize⟩
            · rw [hbuffer, hrest, List.flatten_cons, List.append_assoc]
          · rintro ⟨frames, encodings, tail, hencode, hsize, hstream, htail⟩
            cases hencode with
            | nil =>
                rw [List.flatten_nil, List.nil_append] at hstream
                rw [hstream] at hnext
                exact absurd hnext htail.not_frame
            | cons hfirst hothers =>
                rw [List.forall_mem_cons] at hsize
                rw [hstream, List.flatten_cons, List.append_assoc, next_encode hfirst hsize.1] at hnext
                cases hnext
                exact ⟨_, _, tail, hothers, hsize.2, rfl, htail⟩

/-- The frames that a drained buffer gives, encoded again, are what it had before. -/
theorem drain_eq_ok {buffer left : Bytes} {frames : List Frame} (h : d.drain buffer = (.ok frames, left)) :
    ∀ f ∈ frames, ∃ encoded, f.encode = .ok encoded ∧ encoded.length ≤ d.maxFrameBytes := by
  induction hn : buffer.length using Nat.strong_induction_on generalizing buffer frames with
  | _ n ih =>
      subst hn
      cases hnext : d.next buffer with
      | incomplete =>
          rw [drain_incomplete hnext] at h
          cases h
          simp
      | failed e rest =>
          rw [drain_failed hnext] at h
          cases h
      | frame f rest =>
          rw [drain_frame hnext] at h
          cases hrest : d.drain rest with
          | mk result last =>
              rw [hrest] at h
              cases result with
              | error e => cases h
              | ok more =>
                  cases h
                  obtain ⟨encoded, hf, hfits, -⟩ := next_eq_frame.mp hnext
                  rw [List.forall_mem_cons]
                  exact ⟨⟨encoded, hf, hfits⟩, ih rest.length (next_shorter hnext) hrest rfl⟩

end FrameStreamDecoder

/-! ## Commit records -/

theorem checkChunkDigests_protocol (values : List Json) : ¬ Escapes (checkChunkDigests values) := by
  induction values with
  | nil => exact not_escapes_ok _
  | cons v rest ih =>
      rw [checkChunkDigests]
      split
      · simp [ReplicationError.isProtocolError]
      · rwa [escapes_map]

theorem checkCommitRecord_protocol (transactionId generation contextDigest : Json) (values : List Json) :
    ¬ Escapes (checkCommitRecord transactionId generation contextDigest values) := by
  unfold checkCommitRecord
  split_ifs
  · simp [ReplicationError.isProtocolError]
  · split
    · rw [escapes_map]
      exact checkChunkDigests_protocol values
    · simp [ReplicationError.isProtocolError]
    · rename_i e he
      intro h
      have hescapes := validateHeader_escapes.mp ⟨e, he, (escapes_error e).mp h⟩
      exact hescapes.2

theorem checkCommitRecord_generation {transactionId generation contextDigest : Json} {values : List Json}
    {r : CommitRecord} (h : checkCommitRecord transactionId generation contextDigest values = .ok r) :
    generation = .int r.generation := by
  unfold checkCommitRecord at h
  split_ifs at h
  split at h
  · rename_i id g s context identity hheader
    obtain ⟨_, _, _, hcommon⟩ := validateHeader_common (.inr ⟨_, hheader⟩)
    have hg := hcommon.generation
    rw [validateHeader_eq hcommon] at hheader
    cases hfields : validateFields _ FrameType.BEGIN with
    | error e =>
        rw [hfields] at hheader
        cases hheader
    | ok fields =>
        rw [hfields] at hheader
        cases hheader
        cases hdigests : checkChunkDigests values with
        | error e =>
            rw [hdigests] at h
            cases h
        | ok digests =>
            rw [hdigests] at h
            cases h
            rw [Json.get?_object (by simp)] at hg
            simpa [getField] using hg
  · cases h
  · cases h

theorem CommitRecord.depth_json_le (r : CommitRecord) : r.json.depth ≤ 2 := by
  apply Json.depth_object_le
  simp only [CommitRecord.entries, List.mem_cons, List.not_mem_nil, or_false, forall_eq_or_imp, forall_eq]
  refine ⟨Nat.zero_le 1, Nat.zero_le 1, Nat.zero_le 1, ?_⟩
  rw [Json.depth, Nat.add_comm]
  refine Nat.succ_le_succ (Json.depthItems_le fun x hx => ?_)
  obtain ⟨digest, -, rfl⟩ := List.mem_map.mp hx
  exact Nat.zero_le 0

theorem CommitRecord.printable_json {r : CommitRecord} (h : (Json.int r.generation).printable = true) :
    r.json.printable = true := by
  apply Json.printable_object
  simp only [CommitRecord.entries, List.mem_cons, List.not_mem_nil, or_false, forall_eq_or_imp, forall_eq]
  refine ⟨rfl, h, rfl, ?_⟩
  rw [Json.printable, Json.printableItems_iff]
  intro x hx
  obtain ⟨digest, -, rfl⟩ := List.mem_map.mp hx
  rfl

/-- The JSON library gives a record up. -/
def HostileRecord (json : JsonLibrary) (payload : Bytes) : Prop :=
  json.loads payload = .error .digits ∨ json.loads payload = .error .recursion

theorem decodeCommitRecord_escapes {json : JsonLibrary} {payload : Bytes} :
    Escapes (decodeCommitRecordWith json payload) ↔ HostileRecord json payload := by
  unfold decodeCommitRecordWith HostileRecord
  cases hloads : json.loads payload with
  | error e => simp [caught_escapes]
  | ok record =>
      simp only [reduceCtorEq, or_self, iff_false]
      intro h
      split_ifs at h
      · simp [ReplicationError.isProtocolError] at h
      · split at h
        · rename_i generation _ _ _ _ hgeneration _ _
          split at h
          · rename_i e he
            exact checkCommitRecord_protocol _ _ _ _ ⟨e, he, (escapes_error e).mp h⟩
          · rename_i checked hchecked
            have hvalue := checkCommitRecord_generation hchecked
            subst hvalue
            have hprint := Json.printable_of_get? (json.printable hloads) hgeneration
            have hdumps : json.dumps checked.json = .ok (canonicalJson checked.json) :=
              JsonLibrary.dumps_eq_ok.mpr
                ⟨json.shallow checked.depth_json_le, CommitRecord.printable_json hprint, rfl⟩
            rw [hdumps] at h
            dsimp only at h
            split_ifs at h
            · simp [ReplicationError.isProtocolError] at h
            · exact not_escapes_ok _ h
        · simp [ReplicationError.isProtocolError] at h

/-- A record is accepted only from its own encoding. -/
theorem decodeCommitRecordWith_eq_ok {json : JsonLibrary} {payload : Bytes} {r : CommitRecord}
    (h : decodeCommitRecordWith json payload = .ok r) : r.encode = .ok payload := by
  unfold decodeCommitRecordWith at h
  split at h
  · cases h
  · split_ifs at h
    split at h
    · split at h
      · cases h
      · rename_i checked hchecked
        split at h
        · cases h
        · rename_i expected hexpected
          split_ifs at h with heq
          cases h
          obtain ⟨-, hprint, hcanonical⟩ := JsonLibrary.dumps_eq_ok.mp hexpected
          rw [ne_eq, not_not] at heq
          unfold CommitRecord.encode canonicalJson?
          rw [if_pos hprint, ← heq, hcanonical]
    · cases h

namespace FrameStreamDecoder

/-- Bytes from a peer raise only `ProtocolError` exactly if neither a header that is reached nor a record is
hostile. What is accepted is encoded as it was received, and decodes to itself. -/
theorem escapes_iff (d : FrameStreamDecoder) (buffer data payload : Bytes) :
    (Escapes (d.feed buffer data).1 ↔
      buffer.length + data.length ≤ d.maxBufferBytes ∧ d.HostileStream (buffer ++ data)) ∧
    (Escapes (decodeCommitRecordWith d.json payload) ↔ HostileRecord d.json payload) ∧
    (∀ frames left, d.feed buffer data = (.ok frames, left) →
      ∀ f ∈ frames, ∃ encoded, f.encode = .ok encoded ∧ d.feed [] encoded = (.ok [f], [])) ∧
    ∀ r, decodeCommitRecordWith d.json payload = .ok r → r.encode = .ok payload := by
  refine ⟨?_, decodeCommitRecord_escapes, ?_, fun r => decodeCommitRecordWith_eq_ok⟩
  · by_cases hroom : buffer.length + data.length ≤ d.maxBufferBytes
    · rw [feed_eq_drain hroom, drain_escapes]
      simp [hroom]
    · rw [feed, if_pos (Nat.lt_of_not_le hroom)]
      simp [hroom, ReplicationError.isProtocolError]
  · intro frames left h f hf
    have hroom : buffer.length + data.length ≤ d.maxBufferBytes := by
      by_contra hfull
      rw [feed, if_pos (Nat.lt_of_not_le hfull)] at h
      cases h
    rw [feed_eq_drain hroom] at h
    obtain ⟨encoded, hencode, hsize⟩ := drain_eq_ok h f hf
    refine ⟨encoded, hencode, ?_⟩
    have hempty : ([] : Bytes).length + encoded.length ≤ d.maxBufferBytes := by
      rw [List.length_nil, Nat.zero_add]
      exact hsize.trans d.frameFits
    have hnext := next_encode hencode hsize []
    rw [List.append_nil] at hnext
    rw [feed_eq_drain hempty, List.nil_append, drain_frame hnext, drain_incomplete next_nil]
    rfl

/-- An acknowledgement whose status is a list. -/
def listStatus : Json :=
  .object [("ack_sequence", .int 1), ("generation", .int 3), ("sequence", .int 1), ("status", .arr []),
    ("transaction_id", (Hex.replicate 32 48 isHexCode_zero : TransactionId).json)]

/-- Decoding stops at a value that cannot be looked up in a set. -/
def stopsUnhashable : Decoded → Bool
  | .failed .unhashable [] => true
  | _ => false

/-- The lookup of a list in the set of statuses raises `TypeError`. -/
theorem listStatus_escapes :
    ¬ ∀ data, ¬ Escapes (FrameStreamDecoder.default.feed [] data).1 := by
  intro h
  refine h (Frame.packPrefix .ACK 110 0 ++ canonicalJson listStatus) ?_
  have hnext : stopsUnhashable (FrameStreamDecoder.default.next
      (Frame.packPrefix .ACK 110 0 ++ canonicalJson listStatus)) = true := by
    decide +kernel
  unfold stopsUnhashable at hnext
  split at hnext
  · rename_i hfailed
    rw [feed_eq_drain (by decide +kernel), List.nil_append, drain_failed hfailed, escapes_error]
    rfl
  · cases hnext

end FrameStreamDecoder

end SparkCache.Replication
