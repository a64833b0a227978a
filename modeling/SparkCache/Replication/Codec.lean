import SparkCache.Replication.Protocol

/-!
# The codec round trips

A frame that encodes is decoded back from the head of any buffer, and a commit
record is decoded exactly from its canonical bytes.
-/
namespace SparkCache.Replication

theorem Header.entries_nodup (h : Header) : (h.entries.map Prod.fst).Nodup := by
  obtain ⟨_, _, _, fields⟩ := h
  cases fields <;> simp [Header.entries, Fields.entries]

theorem Header.get?_json (h : Header) (k : Str) : h.json.get? k = getField k h.entries :=
  Json.get?_object h.entries_nodup k

theorem Header.keys_perm (h : Header) :
    (h.entries.map Prod.fst).Perm h.fields.frameType.fields := by
  obtain ⟨_, _, _, fields⟩ := h
  cases fields <;>
    simp only [Header.entries, Fields.entries, List.map_cons, List.map_nil, Fields.frameType,
      FrameType.fields] <;>
    decide +kernel

theorem Header.mem_keys_json (h : Header) (k : Str) :
    k ∈ h.json.keys ↔ k ∈ h.fields.frameType.fields := by
  rw [show h.json = .object h.entries from rfl, Json.mem_keys_object]
  exact h.keys_perm.mem_iff

theorem validateFields_json (h : Header) :
    validateFields h.json h.fields.frameType = .ok h.fields := by
  obtain ⟨transactionId, generation, sequence, fields⟩ := h
  cases fields <;>
    simp [Fields.frameType, validateFields, requiredInt, requiredDigest, required,
      Header.get?_json, Header.entries, Fields.entries, getField, bind, Except.bind, pure, Except.pure]

theorem validateHeader_json (h : Header) : validateHeader h.fields.frameType h.json = .ok h := by
  have hmissing : (h.fields.frameType.fields.filter fun k => k ∉ h.json.keys) = [] := by
    simp [List.filter_eq_nil_iff, h.mem_keys_json]
  have hunexpected : (h.json.keys.filter fun k => k ∉ h.fields.frameType.fields) = [] := by
    simp [List.filter_eq_nil_iff, h.mem_keys_json]
  have htransaction : h.json.get? "transaction_id" = some h.transactionId.json := by
    simp [Header.get?_json, Header.entries, getField]
  have hgeneration : h.json.get? "generation" = some (.int h.generation) := by
    simp [Header.get?_json, Header.entries, getField]
  have hsequence : h.json.get? "sequence" = some (.int h.sequence) := by
    simp [Header.get?_json, Header.entries, getField]
  unfold validateHeader
  simp only [hmissing, hunexpected, ne_eq, not_true_eq_false, or_self, ↓reduceIte]
  simp [requiredInt, required, htransaction, hgeneration, hsequence, validateFields_json, bind,
    Except.bind, pure, Except.pure]

theorem Frame.make_header (f : Frame) : Frame.make f.frameType f.header f.payload = .ok f := by
  unfold Frame.make
  rw [Frame.frameType, Frame.header, validateHeader_json]
  simp only
  split
  · rename_i e he
    rw [f.valid] at he
    cases he
  · rfl

/-- Header values are integers and strings that can be encoded. -/
theorem Header.entries_plain (h : Header) : ∀ f ∈ h.entries, f.1.encodable = true ∧
    ((∃ n, f.2 = .int n) ∨ ∃ s : Str, f.2 = .str s ∧ s.encodable = true) := by
  obtain ⟨transactionId, generation, sequence, fields⟩ := h
  cases fields <;>
    simp [Header.entries, Fields.entries, Hex.json, Hex.encodable, Reason.valid]

theorem Header.normal_json {h : Header} (hp : h.json.printable = true) : h.json.Normal := by
  apply Json.normal_object
  intro f hf
  obtain ⟨hkey, hvalue⟩ := h.entries_plain f hf
  have hget : h.json.get? f.1 = some f.2 := by
    rw [h.get?_json]
    exact Json.getField_of_mem h.entries_nodup hf
  have hprint := Json.printable_of_get? hp hget
  refine ⟨hkey, ?_⟩
  rcases hvalue with ⟨n, hn⟩ | ⟨s, hs, he⟩
  · rw [hn] at hprint ⊢
    simpa [Json.printable, Json.Normal] using hprint
  · rw [hs]
    exact he

/-! ## Frames -/

theorem Frame.encode_eq_ok {f : Frame} {encoded : Bytes} (h : f.encode = .ok encoded) :
    f.header.Normal ∧ (canonicalJson f.header).length ≤ maxHeaderBytes ∧
      encoded = packPrefix f.frameType (canonicalJson f.header).length f.payload.length ++
        canonicalJson f.header ++ f.payload := by
  unfold Frame.encode canonicalJson? at h
  split_ifs at h with hp
  · simp only at h
    split_ifs at h with hlen
    cases h
    exact ⟨Header.normal_json hp, Nat.le_of_not_lt hlen, rfl⟩

theorem Frame.payload_length_le (f : Frame) : f.payload.length ≤ maxPayloadBytes := by
  have h := f.valid
  unfold checkPayload at h
  by_contra hlt
  rw [Nat.not_le] at hlt
  simp only [hlt, ↓reduceIte] at h
  split_ifs at h <;> cases h

theorem Header.depth_json_le (h : Header) : h.json.depth ≤ 2 := by
  refine (Json.depth_object_le (n := 0) fun f hf => ?_).trans (by omega)
  obtain ⟨-, ⟨n, hn⟩ | ⟨s, hs, -⟩⟩ := h.entries_plain f hf
  · rw [hn]
    exact le_of_eq rfl
  · rw [hs]
    exact le_of_eq rfl

theorem decodeFrame_canonical (json : JsonLibrary) {f : Frame} (h : f.header.Normal) :
    decodeFrame json f.frameType.code (canonicalJson f.header) f.payload = .ok f := by
  have hobject : f.header.isObject = true := rfl
  have hdeep : json.deep f.header = false := json.shallow f.toHeader.depth_json_le
  have hdumps : json.dumps f.header = .ok (canonicalJson f.header) :=
    JsonLibrary.dumps_eq_ok.mpr ⟨hdeep, h.printable, rfl⟩
  simp [decodeFrame, json.canonical h hdeep, hobject, hdumps, Frame.make_header]

@[simp] theorem Frame.packPrefix_length (t : FrameType) (m n : ℕ) :
    (Frame.packPrefix t m n).length = prefixSize := by
  simp [Frame.packPrefix, prefixSize]

theorem unpackPrefix_pack (t : FrameType) {m n : ℕ} (hm : m < 256 ^ 4) (hn : n < 256 ^ 4)
    (rest : Bytes) :
    unpackPrefix (Frame.packPrefix t m n ++ rest) =
      { magic := [0x53, 0x50, 0x52, 0x50], version := 1, rawType := t.code, flags := 0
        headerBytes := m, payloadBytes := n } := by
  have hheader := FixedWidth.bigValue_big 4 m hm
  have hpayload := FixedWidth.bigValue_big 4 n hn
  have hlm := FixedWidth.big_length 4 m
  have hln := FixedWidth.big_length 4 n
  have htype : FixedWidth.bigValue [UInt8.ofNat t.code] = t.code := by cases t <;> decide
  simp only [unpackPrefix, Frame.packPrefix]
  generalize FixedWidth.big 4 m = a at *
  generalize FixedWidth.big 4 n = b at *
  match a, hlm with
  | [a1, a2, a3, a4], _ =>
    match b, hln with
    | [b1, b2, b3, b4], _ =>
      simp only [List.cons_append, List.nil_append, List.take_succ_cons, List.take_zero,
        List.drop_succ_cons, List.drop_zero, htype, hheader, hpayload]
      congr

/-- A complete frame at the head of the buffer is taken off it. -/
theorem FrameStreamDecoder.next_encode {d : FrameStreamDecoder} {f : Frame} {encoded : Bytes}
    (h : f.encode = .ok encoded) (hd : encoded.length ≤ d.maxFrameBytes) (rest : Bytes) :
    d.next (encoded ++ rest) = .frame f rest := by
  obtain ⟨hn, hlen, hencoded⟩ := f.encode_eq_ok h
  have hpay := f.payload_length_le
  generalize hh : canonicalJson f.header = header at *
  have hp := Frame.packPrefix_length f.frameType header.length f.payload.length
  generalize hpk : Frame.packPrefix f.frameType header.length f.payload.length = pack at *
  have hbuffer : encoded ++ rest = pack ++ (header ++ (f.payload ++ rest)) := by
    simp [hencoded]
  have hunpack := unpackPrefix_pack f.frameType (m := header.length) (n := f.payload.length)
    (by unfold maxHeaderBytes at hlen; omega) (by unfold maxPayloadBytes at hpay; omega)
    (header ++ (f.payload ++ rest))
  rw [hpk] at hunpack
  have htotal : encoded.length = prefixSize + header.length + f.payload.length := by
    rw [hencoded, List.length_append, List.length_append, hp]
  have hheader : ((encoded ++ rest).drop prefixSize).take header.length = header := by
    rw [hbuffer, ← hp, List.drop_left, List.take_left]
  have hpayload : ((encoded ++ rest).drop (prefixSize + header.length)).take f.payload.length =
      f.payload := by
    rw [← List.drop_drop, hbuffer, ← hp, List.drop_left, List.drop_left, List.take_left]
  have hrest : (encoded ++ rest).drop (prefixSize + header.length + f.payload.length) = rest := by
    rw [← htotal, List.drop_left]
  have hframe := decodeFrame_canonical d.json hn
  rw [hh] at hframe
  unfold FrameStreamDecoder.next
  rw [if_neg (by rw [List.length_append]; omega)]
  simp only [hbuffer, hunpack]
  rw [← hbuffer, if_neg (by simp), if_neg (by omega), if_neg (by omega),
    if_neg (by rw [List.length_append]; omega), hheader, hpayload, hrest, hframe]

theorem Frame.encode_length_le {f : Frame} {encoded : Bytes} (h : f.encode = .ok encoded) :
    encoded.length ≤ maxFrameBytes := by
  obtain ⟨-, hlen, hencoded⟩ := f.encode_eq_ok h
  have hpay := f.payload_length_le
  rw [hencoded, List.length_append, List.length_append, Frame.packPrefix_length]
  unfold maxFrameBytes
  omega

/-- The default decoder turns the bytes of one frame into that frame. -/
theorem FrameStreamDecoder.feed_encode {f : Frame} {encoded : Bytes} (h : f.encode = .ok encoded) :
    FrameStreamDecoder.default.feed [] encoded = (.ok [f], []) := by
  have hlen := Frame.encode_length_le h
  have hnext := FrameStreamDecoder.next_encode (d := .default) h hlen []
  rw [List.append_nil] at hnext
  have hempty : FrameStreamDecoder.default.next [] = .incomplete := rfl
  unfold feed
  rw [if_neg (by unfold FrameStreamDecoder.default; simp only [List.length_nil]; omega),
    List.nil_append, drain]
  split
  · rename_i heq
    rw [hnext] at heq
    cases heq
  · rename_i heq
    rw [hnext] at heq
    cases heq
  · rename_i g rest heq
    rw [hnext] at heq
    cases heq
    rw [drain]
    rfl

/-- Distinct frames have distinct encodings. -/
theorem Frame.encode_inj {f g : Frame} {encoded : Bytes} (hf : f.encode = .ok encoded)
    (hg : g.encode = .ok encoded) : f = g := by
  have hfeed := FrameStreamDecoder.feed_encode hf
  rw [FrameStreamDecoder.feed_encode hg] at hfeed
  simpa using hfeed.symm

/-! ## Commit records -/

theorem CommitRecord.entries_nodup (r : CommitRecord) : (r.entries.map Prod.fst).Nodup := by
  simp [CommitRecord.entries]

theorem CommitRecord.get?_json (r : CommitRecord) (k : Str) :
    r.json.get? k = getField k r.entries :=
  Json.get?_object r.entries_nodup k

theorem CommitRecord.normal_json {r : CommitRecord} (hp : r.json.printable = true) :
    r.json.Normal := by
  have hget : r.json.get? "generation" = some (.int r.generation) := by
    simp [r.get?_json, CommitRecord.entries, getField]
  have hgeneration := Json.printable_of_get? hp hget
  apply Json.normal_object
  simp only [CommitRecord.entries, List.mem_cons, List.not_mem_nil, or_false,
    forall_eq_or_imp, forall_eq, Str.encodable_ofString, true_and]
  refine ⟨r.transactionId.encodable, ?_, r.contextDigest.encodable, ?_⟩
  · simpa [Json.printable, Json.Normal] using hgeneration
  · simp only [Json.Normal, Json.normalItems_iff, List.mem_map]
    rintro _ ⟨d, -, rfl⟩
    exact d.encodable

theorem checkChunkDigests_json (digests : List Digest) :
    checkChunkDigests (digests.map Hex.json) = .ok digests := by
  induction digests with
  | nil => rfl
  | cons d rest ih => simp [checkChunkDigests, ih, Except.map]

/-- Checking the values of a record gives the record back. -/
theorem checkCommitRecord_json {r : CommitRecord} (h : r.chunkDigests ≠ []) :
    checkCommitRecord r.transactionId.json (.int r.generation) r.contextDigest.json
      (r.chunkDigests.map Hex.json) = .ok r := by
  have hheader := validateHeader_json
    ⟨r.transactionId, r.generation, 0, .begin r.contextDigest zeroDigest⟩
  simp only [Header.json, Header.entries, Fields.entries, Fields.frameType, Nat.cast_zero]
    at hheader
  unfold checkCommitRecord
  rw [if_neg (by simpa using h), hheader]
  simp [checkChunkDigests_json, Except.map]

theorem decodeCommitRecord_canonical {r : CommitRecord} (h : r.chunkDigests ≠ [])
    (hp : r.json.printable = true) : decodeCommitRecord (canonicalJson r.json) = .ok r := by
  have hkeys : r.json.hasKeys
      ["transaction_id", "generation", "context_digest", "chunk_digests"] = true := by
    rw [CommitRecord.json, Json.hasKeys_object]
    simp [CommitRecord.entries]
  have hobject : r.json.isObject = true := rfl
  have htransaction : r.json.get? "transaction_id" = some r.transactionId.json := by
    simp [r.get?_json, CommitRecord.entries, getField]
  have hgeneration : r.json.get? "generation" = some (.int r.generation) := by
    simp [r.get?_json, CommitRecord.entries, getField]
  have hcontext : r.json.get? "context_digest" = some r.contextDigest.json := by
    simp [r.get?_json, CommitRecord.entries, getField]
  have hchunks : r.json.get? "chunk_digests" = some (.arr (r.chunkDigests.map Hex.json)) := by
    simp [r.get?_json, CommitRecord.entries, getField]
  have hcheck := checkCommitRecord_json h
  have hloads : JsonLibrary.unlimited.loads (canonicalJson r.json) = .ok r.json :=
    JsonLibrary.unlimited.canonical (CommitRecord.normal_json hp) rfl
  have hdumps : JsonLibrary.unlimited.dumps r.json = .ok (canonicalJson r.json) :=
    JsonLibrary.dumps_eq_ok.mpr ⟨rfl, hp, rfl⟩
  unfold decodeCommitRecord decodeCommitRecordWith
  rw [hloads]
  simp only [hobject, hkeys, not_true_eq_false, or_self, ↓reduceIte, htransaction, hgeneration,
    hcontext, hchunks]
  cases hd : r.chunkDigests with
  | nil => exact absurd hd h
  | cons d rest =>
      rw [hd] at hcheck
      simp only [List.map_cons] at hcheck ⊢
      simp [hcheck, hdumps]

theorem checkChunkDigests_length {values : List Json} {digests : List Digest}
    (h : checkChunkDigests values = .ok digests) : digests.length = values.length := by
  induction values generalizing digests with
  | nil =>
      cases h
      rfl
  | cons v rest ih =>
      rw [checkChunkDigests] at h
      split at h
      · cases h
      · cases hrest : checkChunkDigests rest with
        | error e =>
            rw [hrest] at h
            cases h
        | ok ds =>
            rw [hrest] at h
            cases h
            rw [List.length_cons, List.length_cons, ih hrest]

theorem checkCommitRecord_ne_nil {t g c : Json} {values : List Json} {r : CommitRecord}
    (h : checkCommitRecord t g c values = .ok r) : r.chunkDigests ≠ [] := by
  unfold checkCommitRecord at h
  split_ifs at h with hne
  split at h
  · cases hd : checkChunkDigests values with
    | error e =>
        rw [hd] at h
        cases h
    | ok ds =>
        rw [hd] at h
        cases h
        have hlen := checkChunkDigests_length hd
        show ds ≠ []
        rintro rfl
        exact hne (List.length_eq_zero_iff.mp hlen.symm)
  · cases h
  · cases h

theorem CommitRecord.encode_eq_ok {r : CommitRecord} {encoded : Bytes}
    (h : r.encode = .ok encoded) : encoded = canonicalJson r.json ∧ r.json.printable = true := by
  unfold CommitRecord.encode canonicalJson? at h
  by_cases hp : r.json.printable = true
  · rw [if_pos hp] at h
    cases h
    exact ⟨rfl, hp⟩
  · rw [if_neg hp] at h
    cases h

/-- A record is accepted only from its own canonical bytes. -/
theorem decodeCommitRecord_eq_ok {payload : Bytes} {r : CommitRecord}
    (h : decodeCommitRecord payload = .ok r) :
    payload = canonicalJson r.json ∧ r.json.printable = true ∧ r.chunkDigests ≠ [] := by
  unfold decodeCommitRecord decodeCommitRecordWith at h
  split at h
  · cases h
  · split_ifs at h
    split at h
    · split at h
      · cases h
      · rename_i checked hchecked
        split at h
        · cases h
        · rename_i expected hexpected
          split_ifs at h with heq
          cases h
          obtain ⟨-, hprint, hcanonical⟩ := JsonLibrary.dumps_eq_ok.mp hexpected
          rw [ne_eq, not_not] at heq
          exact ⟨heq ▸ hcanonical, hprint, checkCommitRecord_ne_nil hchecked⟩
    · cases h

end SparkCache.Replication
