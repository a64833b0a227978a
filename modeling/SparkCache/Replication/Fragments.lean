import SparkCache.Replication.Codec

/-!
# Decoding a stream in pieces

A decoder takes the same frames off a stream however the stream is cut: what it has drained from a buffer
it drains from every longer one, and then goes on from what was left.
-/
namespace SparkCache.Replication

/-- The same result, with more bytes behind it. -/
def Decoded.append (more : Bytes) : Decoded → Decoded
  | .incomplete => .incomplete
  | .frame f rest => .frame f (rest ++ more)
  | .failed e rest => .failed e (rest ++ more)

theorem unpackPrefix_append {buffer : Bytes} (h : prefixSize ≤ buffer.length) (more : Bytes) :
    unpackPrefix (buffer ++ more) = unpackPrefix buffer := by
  unfold prefixSize at h
  have hslice : ∀ start size, start + size ≤ 16 →
      ((buffer ++ more).drop start).take size = (buffer.drop start).take size := by
    intro start size hsize
    rw [List.drop_append_of_le_length (by omega), List.take_append_of_le_length]
    rw [List.length_drop]
    omega
  have hmagic := hslice 0 4 (by omega)
  simp only [List.drop_zero] at hmagic
  simp only [unpackPrefix, hmagic, hslice 4 1 (by omega), hslice 5 1 (by omega), hslice 6 2 (by omega),
    hslice 8 4 (by omega), hslice 12 4 (by omega)]

theorem map_nil_append (result : Except ReplicationError (List Frame)) : result.map ([] ++ ·) = result := by
  cases result with
  | error e => rfl
  | ok frames => rfl

theorem map_map_append (first second : List Frame) (result : Except ReplicationError (List Frame)) :
    (result.map (second ++ ·)).map (first ++ ·) = result.map (first ++ second ++ ·) := by
  cases result with
  | error e => rfl
  | ok frames => exact congrArg Except.ok (List.append_assoc first second frames).symm

namespace FrameStreamDecoder

variable {d : FrameStreamDecoder}

/-- Only a frame that is not complete yet waits for what comes after it. -/
theorem next_append {buffer : Bytes} (h : d.next buffer ≠ .incomplete) (more : Bytes) :
    d.next (buffer ++ more) = (d.next buffer).append more := by
  unfold next at h ⊢
  by_cases hprefix : buffer.length < prefixSize
  · rw [if_pos hprefix] at h
    exact absurd rfl h
  · rw [Nat.not_lt] at hprefix
    have hlong : ¬ (buffer ++ more).length < prefixSize := by
      rw [List.length_append]
      omega
    rw [if_neg (Nat.not_lt.mpr hprefix)] at h ⊢
    rw [if_neg hlong]
    simp only [unpackPrefix_append hprefix] at h ⊢
    by_cases hcomplete : buffer.length < prefixSize + (unpackPrefix buffer).headerBytes +
        (unpackPrefix buffer).payloadBytes
    · rw [if_pos hcomplete] at h ⊢
      split_ifs at h ⊢ with h1 h2 h3
      · rfl
      · rfl
      · rfl
      · exact absurd rfl h
      · exact absurd rfl h
    · rw [Nat.not_lt] at hcomplete
      have hmore : ¬ (buffer ++ more).length < prefixSize + (unpackPrefix buffer).headerBytes +
          (unpackPrefix buffer).payloadBytes := by
        rw [List.length_append]
        omega
      rw [if_neg (Nat.not_lt.mpr hcomplete), if_neg hmore]
      split_ifs with h1 h2 h3
      · rfl
      · rfl
      · rfl
      rw [List.drop_append_of_le_length hprefix, List.take_append_of_le_length,
        List.drop_append_of_le_length (by omega), List.take_append_of_le_length,
        List.drop_append_of_le_length hcomplete]
      · split
        · rfl
        · rfl
      · rw [List.length_drop]
        omega
      · rw [List.length_drop]
        omega

theorem drain_incomplete {buffer : Bytes} (h : d.next buffer = .incomplete) : d.drain buffer = (.ok [], buffer) := by
  rw [drain]
  split
  · rfl
  · rename_i heq
    rw [h] at heq
    cases heq
  · rename_i heq
    rw [h] at heq
    cases heq

theorem drain_failed {buffer rest : Bytes} {e : ReplicationError} (h : d.next buffer = .failed e rest) :
    d.drain buffer = (.error e, rest) := by
  rw [drain]
  split
  · rename_i heq
    rw [h] at heq
    cases heq
  · rename_i heq
    rw [h] at heq
    cases heq
    rfl
  · rename_i heq
    rw [h] at heq
    cases heq

theorem drain_frame {buffer rest : Bytes} {f : Frame} (h : d.next buffer = .frame f rest) :
    d.drain buffer = ((d.drain rest).1.map (f :: ·), (d.drain rest).2) := by
  rw [drain]
  split
  · rename_i heq
    rw [h] at heq
    cases heq
  · rename_i heq
    rw [h] at heq
    cases heq
  · rename_i heq
    rw [h] at heq
    cases heq
    rfl

/-- What a drained buffer keeps is not a complete frame. -/
theorem next_left {buffer left : Bytes} {frames : List Frame} (h : d.drain buffer = (.ok frames, left)) :
    d.next left = .incomplete := by
  induction hn : buffer.length using Nat.strong_induction_on generalizing buffer frames with
  | _ n ih =>
      subst hn
      cases hnext : d.next buffer with
      | incomplete =>
          rw [drain_incomplete hnext] at h
          cases h
          exact hnext
      | failed e rest =>
          rw [drain_failed hnext] at h
          cases h
      | frame f rest =>
          rw [drain_frame hnext] at h
          cases hrest : d.drain rest with
          | mk result last =>
              rw [hrest] at h
              cases result with
              | error e => cases h
              | ok more =>
                  cases h
                  exact ih rest.length (next_shorter hnext) hrest rfl

/-- Draining a longer buffer goes on from what the shorter one has left. -/
theorem drain_append {buffer left : Bytes} {frames : List Frame} (h : d.drain buffer = (.ok frames, left))
    (more : Bytes) :
    d.drain (buffer ++ more) = ((d.drain (left ++ more)).1.map (frames ++ ·), (d.drain (left ++ more)).2) := by
  induction hn : buffer.length using Nat.strong_induction_on generalizing buffer frames with
  | _ n ih =>
      subst hn
      cases hnext : d.next buffer with
      | incomplete =>
          rw [drain_incomplete hnext] at h
          cases h
          rw [map_nil_append]
      | failed e rest =>
          rw [drain_failed hnext] at h
          cases h
      | frame f rest =>
          have happend := next_append (d := d) (by rw [hnext]; simp) more
          rw [hnext] at happend
          rw [drain_frame hnext] at h
          rw [drain_frame happend]
          cases hrest : d.drain rest with
          | mk result last =>
              rw [hrest] at h
              cases result with
              | error e => cases h
              | ok following =>
                  cases h
                  rw [ih rest.length (next_shorter hnext) hrest rfl]
                  exact Prod.ext (map_map_append [f] following _) rfl

/-- An error at the head of a stream is an error of the stream. -/
theorem drain_error_append {buffer left : Bytes} {e : ReplicationError} (h : d.drain buffer = (.error e, left))
    (more : Bytes) : (d.drain (buffer ++ more)).1 = .error e := by
  induction hn : buffer.length using Nat.strong_induction_on generalizing buffer with
  | _ n ih =>
      subst hn
      cases hnext : d.next buffer with
      | incomplete =>
          rw [drain_incomplete hnext] at h
          cases h
      | failed e' rest =>
          have happend := next_append (d := d) (by rw [hnext]; simp) more
          rw [hnext] at happend
          rw [drain_failed hnext] at h
          rw [drain_failed happend]
          cases h
          rfl
      | frame f rest =>
          have happend := next_append (d := d) (by rw [hnext]; simp) more
          rw [hnext] at happend
          rw [drain_frame hnext] at h
          rw [drain_frame happend]
          cases hrest : d.drain rest with
          | mk result last =>
              rw [hrest] at h
              cases result with
              | ok following => cases h
              | error e' =>
                  cases h
                  rw [ih rest.length (next_shorter hnext) hrest rfl]
                  rfl

/-! ## Feeding -/

/-- Feed the pieces one after the other. An exception ends the connection. -/
def feedAll (d : FrameStreamDecoder) : Bytes → List Bytes → Except ReplicationError (List Frame) × Bytes
  | buffer, [] => (.ok [], buffer)
  | buffer, piece :: pieces =>
      match d.feed buffer piece with
      | (.error e, left) => (.error e, left)
      | (.ok frames, left) =>
          let (more, last) := feedAll d left pieces
          (more.map (frames ++ ·), last)

/-- No piece takes the buffer over its bound. -/
def Fits (d : FrameStreamDecoder) : Bytes → List Bytes → Prop
  | _, [] => True
  | buffer, piece :: pieces =>
      buffer.length + piece.length ≤ d.maxBufferBytes ∧ d.Fits (d.feed buffer piece).2 pieces

theorem feed_eq_drain {buffer piece : Bytes} (h : buffer.length + piece.length ≤ d.maxBufferBytes) :
    d.feed buffer piece = d.drain (buffer ++ piece) := by
  rw [feed, if_neg (Nat.not_lt.mpr h)]

/-- However a stream is cut, its frames are those of the whole. -/
theorem feedAll_eq_ok {buffer left : Bytes} {pieces : List Bytes} {frames : List Frame}
    (hbuffer : d.next buffer = .incomplete) (hfits : d.Fits buffer pieces)
    (h : d.drain (buffer ++ pieces.flatten) = (.ok frames, left)) :
    d.feedAll buffer pieces = (.ok frames, left) := by
  induction pieces generalizing buffer frames with
  | nil =>
      rw [List.flatten_nil, List.append_nil, drain_incomplete hbuffer] at h
      rw [feedAll, h]
  | cons piece pieces ih =>
      obtain ⟨hbound, hfits⟩ := hfits
      rw [List.flatten_cons, ← List.append_assoc] at h
      rw [feed_eq_drain hbound] at hfits
      rw [feedAll, feed_eq_drain hbound]
      cases hdrain : d.drain (buffer ++ piece) with
      | mk result kept =>
          rw [hdrain] at hfits
          cases result with
          | error e =>
              have herror := drain_error_append hdrain pieces.flatten
              rw [h] at herror
              cases herror
          | ok first =>
              rw [drain_append hdrain] at h
              cases hrest : d.drain (kept ++ pieces.flatten) with
              | mk result last =>
                  rw [hrest] at h
                  cases result with
                  | error e => cases h
                  | ok more =>
                      cases h
                      dsimp only
                      rw [ih (next_left hdrain) hfits hrest]
                      rfl

theorem drain_left_le (buffer : Bytes) : (d.drain buffer).2.length ≤ buffer.length := by
  induction hn : buffer.length using Nat.strong_induction_on generalizing buffer with
  | _ n ih =>
      subst hn
      cases hnext : d.next buffer with
      | incomplete => rw [drain_incomplete hnext]
      | failed e rest =>
          rw [drain_failed hnext]
          unfold next at hnext
          dsimp only at hnext
          split_ifs at hnext
          · cases hnext
            exact le_rfl
          · cases hnext
            exact le_rfl
          · cases hnext
            exact le_rfl
          · split at hnext
            · cases hnext
              rw [List.length_drop]
              omega
            · cases hnext
      | frame f rest =>
          rw [drain_frame hnext]
          have hshorter := next_shorter hnext
          exact (ih rest.length hshorter rest rfl).trans hshorter.le

/-- A stream that fits the buffer as a whole fits it in any pieces. -/
theorem fits_of_length_le {buffer : Bytes} {pieces : List Bytes}
    (h : (buffer ++ pieces.flatten).length ≤ d.maxBufferBytes) : d.Fits buffer pieces := by
  induction pieces generalizing buffer with
  | nil => trivial
  | cons piece pieces ih =>
      rw [List.flatten_cons, List.length_append, List.length_append] at h
      have hroom : buffer.length + piece.length ≤ d.maxBufferBytes := by omega
      refine ⟨hroom, ih ?_⟩
      rw [feed_eq_drain hroom]
      have hleft := drain_left_le (d := d) (buffer ++ piece)
      rw [List.length_append] at hleft ⊢
      omega

theorem next_nil : d.next [] = .incomplete := by
  rw [next, if_pos (by simp [prefixSize])]

/-- The encodings of frames, one after the other, drain to these frames. -/
theorem drain_encodings {frames : List Frame} {encodings : List Bytes}
    (hencode : List.Forall₂ (fun f encoded => Frame.encode f = .ok encoded) frames encodings)
    (hsize : ∀ encoded ∈ encodings, encoded.length ≤ d.maxFrameBytes) :
    d.drain encodings.flatten = (.ok frames, []) := by
  induction hencode with
  | nil => exact drain_incomplete next_nil
  | cons hfirst hrest ih =>
      rw [List.forall_mem_cons] at hsize
      rw [List.flatten_cons, drain_frame (next_encode hfirst hsize.1 _), ih hsize.2]
      rfl

/-- Frames that a decoder admits are taken off a stream of their encodings, however it is cut into pieces
that fit the buffer, and nothing is left. One encoded frame decodes to that frame. -/
theorem feedAll_encodings (d : FrameStreamDecoder) {frames : List Frame} {encodings pieces : List Bytes}
    (hencode : List.Forall₂ (fun f encoded => Frame.encode f = .ok encoded) frames encodings)
    (hsize : ∀ encoded ∈ encodings, encoded.length ≤ d.maxFrameBytes)
    (hpieces : pieces.flatten = encodings.flatten) (hfits : d.Fits [] pieces) :
    d.feedAll [] pieces = (.ok frames, []) ∧
      ∀ f encoded, Frame.encode f = .ok encoded → encoded.length ≤ d.maxFrameBytes →
        d.feed [] encoded = (.ok [f], []) := by
  constructor
  · apply feedAll_eq_ok next_nil hfits
    rw [List.nil_append, hpieces]
    exact drain_encodings hencode hsize
  · intro f encoded hf hlen
    have hone := drain_encodings (d := d) (List.Forall₂.cons hf List.Forall₂.nil) (by simpa using hlen)
    rw [List.flatten_cons, List.flatten_nil, List.append_nil] at hone
    have hroom : ([] : Bytes).length + encoded.length ≤ d.maxBufferBytes := by
      rw [List.length_nil, Nat.zero_add]
      exact hlen.trans d.frameFits
    rw [feed_eq_drain hroom, List.nil_append, hone]

def creditFrame : Frame := ⟨⟨Hex.replicate 32 48 isHexCode_zero, 3, 5, .credit 4096 2⟩, [], rfl⟩

def abortFrame : Frame :=
  ⟨⟨Hex.replicate 32 48 isHexCode_zero, 3, 6, .abort ⟨"peer closed", by decide⟩⟩, [], rfl⟩

/-- The bytes of both frames, one after the other. -/
def creditThenAbort : Bytes :=
  Frame.packPrefix .CREDIT 125 0 ++ canonicalJson creditFrame.header ++
    (Frame.packPrefix .ABORT 104 0 ++ canonicalJson abortFrame.header)

/-- The first cut is inside a prefix, the second inside the second header. -/
theorem feedAll_encodings_creditThenAbort :
    FrameStreamDecoder.default.feedAll []
        [creditThenAbort.take 7, (creditThenAbort.drop 7).take 160, creditThenAbort.drop 167] =
      (.ok [creditFrame, abortFrame], []) := by
  have hcredit : creditFrame.encode = .ok (Frame.packPrefix .CREDIT 125 0 ++ canonicalJson creditFrame.header) := by
    decide +kernel
  have habort : abortFrame.encode = .ok (Frame.packPrefix .ABORT 104 0 ++ canonicalJson abortFrame.header) := by
    decide +kernel
  have hpieces : [creditThenAbort.take 7, (creditThenAbort.drop 7).take 160, creditThenAbort.drop 167].flatten =
      [Frame.packPrefix .CREDIT 125 0 ++ canonicalJson creditFrame.header,
        Frame.packPrefix .ABORT 104 0 ++ canonicalJson abortFrame.header].flatten := by
    decide +kernel
  refine (feedAll_encodings .default (.cons hcredit (.cons habort .nil)) ?_ hpieces (fits_of_length_le ?_)).1
  · intro encoded hmem
    simp only [List.mem_cons, List.not_mem_nil, or_false] at hmem
    obtain rfl | rfl := hmem
    · exact Frame.encode_length_le hcredit
    · exact Frame.encode_length_le habort
  · rw [hpieces, List.nil_append]
    have hcreditSize := Frame.encode_length_le hcredit
    have habortSize := Frame.encode_length_le habort
    simp only [List.flatten_cons, List.flatten_nil, List.append_nil, List.length_append] at *
    unfold default
    dsimp only
    omega

end FrameStreamDecoder

end SparkCache.Replication
