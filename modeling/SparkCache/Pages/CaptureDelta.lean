import SparkCache.Pages.Composition

/-!
# Deltas from captured pages

A capture holds the pages of an extension that its result does not reuse, layer
after layer. Two encoders make a delta of it, one of them with the complete
result in a buffer, and a third function materializes the result alone.
-/
namespace SparkCache.Pages

/-- `captured_tail`; `readRange` may raise, or return a value that is no bytes. -/
structure CapturedTail where
  totalBytes : ℕ
  readRange : ℕ → ℕ → Except CodecError (Option Bytes)

/-- A captured tail that is given as bytes. -/
def CapturedTail.ofBytes (captured : Bytes) : CapturedTail :=
  ⟨captured.length, fun start stop => .ok (some (slice captured start stop))⟩

def checkCaptureCounts (layout : PageLayout) (baseCounts resultCounts reused : List ℕ) :
    Except CodecError Unit := do
  require (baseCounts.length = resultCounts.length ∧ resultCounts.length = reused.length ∧
      reused.length = layout.groups.length)
    (.codec "captured page extension geometry differs")
  require (∀ p ∈ (baseCounts.zip resultCounts).zip reused,
      0 < p.1.1 ∧ p.1.1 ≤ p.1.2 ∧ p.2 ≤ p.1.1)
    (.codec "captured page extension counts are invalid")

/-- The bytes of a layer that its result does not share with the base. -/
def tailBytes (resultCounts reused : List ℕ) (p : ℕ × PageLayer) : ℕ :=
  (resultCounts.getD p.1 0 - reused.getD p.1 0) * p.2.bytesPerPage

/-- The bytes of a layer that its result shares with the base. -/
def sharedBytes (reused : List ℕ) (p : ℕ × PageLayer) : ℕ := reused.getD p.1 0 * p.2.bytesPerPage

/-- One `read_range(cursor, end)` with its checks. -/
def readTail (captured : CapturedTail) (cursor size : ℕ) : Except CodecError Bytes := do
  require (cursor + size ≤ captured.totalBytes)
    (.codec "captured page extension payload is truncated")
  match ← captured.readRange cursor (cursor + size) with
  | none => .error (.codec "captured page extension range differs")
  | some tail =>
      require (tail.length = size) (.codec "captured page extension range differs")
      return tail

/-! ## Encoding -/

/-- What an encoder keeps of the result: a buffer with a cursor, what its digest has taken, or
nothing. -/
inductive ResultSink where
  | buffer (output : Bytes) (cursor : ℕ)
  | digest (taken : Bytes)
  | nothing

/-- `result_view[result_cursor : result_cursor + size] = data`, or `result_digest.update(data)` -/
def ResultSink.write (size : ℕ) (data : Bytes) : ResultSink → Except CodecError ResultSink
  | .buffer output cursor => do
      let output ← assign output cursor (cursor + size) data
      return .buffer output (cursor + size)
  | .digest taken => .ok (.digest (taken ++ data))
  | .nothing => .ok .nothing

/-- The result in its buffer, if it was kept there. -/
def ResultSink.finish : ResultSink → Except CodecError (Option Bytes)
  | .buffer output cursor => do
      require (cursor = output.length) (.codec "captured page extension result is incomplete")
      return some output
  | _ => .ok none

/-- The layers of a capture in turn: the offset after them, the result and the tails. -/
def captureLayers (base : Bytes) (captured : CapturedTail) (resultCounts reused : List ℕ) :
    ℕ → ResultSink → List ((ℕ × PageLayer) × PagePayloadSpan) →
      Except CodecError (ℕ × ResultSink × List Bytes)
  | cursor, sink, [] => .ok (cursor, sink, [])
  | cursor, sink, (p, span) :: rest => do
      let prefixEnd := span.sourceStart + sharedBytes reused p
      let size := tailBytes resultCounts reused p
      let tail ← readTail captured cursor size
      let sink ← sink.write (prefixEnd - span.sourceStart) (slice base span.sourceStart prefixEnd)
      let sink ← sink.write size tail
      let (last, sink, tails) ← captureLayers base captured resultCounts reused (cursor + size)
        sink rest
      return (last, sink, tail :: tails)

/-- What is kept of the result before its first layer. -/
def openSink (layout : PageLayout) (resultCounts : List ℕ) (materializeResult : Bool)
    (integrity : Integrity) (header : Bytes) : Except CodecError ResultSink :=
  if materializeResult then do
    let size ← pageSnapshotEncodedSize layout resultCounts
    let output ← assign (List.replicate size 0) 0 header.length header
    return .buffer output header.length
  else if integrity = .sha256 then .ok (.digest header)
  else .ok .nothing

/-- The digest of the result. -/
def sinkDigest (integrity : Integrity) (resultSha256 : Option Digest) (sink : ResultSink) :
    Option Digest :=
  if integrity = .sha256 then
    match sink with
    | .buffer output _ => some (sha256 output)
    | .digest taken => some (sha256 taken)
    | .nothing => none
  else resultSha256

/-- `base_snapshot`, as bytes or with the digest that it was verified against -/
inductive CaptureBase where
  | bytes (payload : Bytes)
  | verified (snapshot : VerifiedPageSnapshot)

namespace CaptureBase

def payload : CaptureBase → Bytes
  | bytes payload => payload
  | verified snapshot => snapshot.payload

/-- The digest that a delta of the base names. -/
def digest (base : CaptureBase) (baseSnapshotSha256 : Option Digest) : Digest :=
  baseSnapshotSha256.getD <| match base with
    | bytes payload => sha256 payload
    | verified snapshot => snapshot.sha256

end CaptureBase

/-- `_encode_page_delta_from_capture` -/
def encodeFromCapture (layout : PageLayout) (base : CaptureBase) (captured : CapturedTail)
    (baseBlockCounts resultBlockCounts reusedPagesByGroup : List ℕ)
    (baseBoundaryTokens resultBoundaryTokens : ℕ) (baseSnapshotSha256 : Option Digest)
    (materializeResult : Bool) (integrity : Integrity) (resultSnapshotSha256 : Option Digest) :
    Except CodecError (Bytes × Option Bytes) := do
  validateDeltaBoundaries baseBoundaryTokens resultBoundaryTokens
  require (integrity = .sha256 ∨
      baseSnapshotSha256.isSome = true ∧ resultSnapshotSha256.isSome = true)
    (.codec "boundary tokens are required without payload digests")
  checkCaptureCounts layout baseBlockCounts resultBlockCounts reusedPagesByGroup
  let basePlan ← planPageSnapshot layout base.payload baseBlockCounts (some base.payload.length)
  require (0 < captured.totalBytes) (.codec "captured page extension payload is invalid")
  let resultHeader ← encodePageSnapshotHeader layout resultBlockCounts
  let sink ← openSink layout resultBlockCounts materializeResult integrity resultHeader
  let (cursor, sink, tails) ← captureLayers base.payload captured resultBlockCounts
    reusedPagesByGroup 0 sink (layout.layers.zip basePlan.spans)
  require (cursor = captured.totalBytes) (.codec "captured page extension has trailing bytes")
  let result ← sink.finish
  match sinkDigest integrity resultSnapshotSha256 sink with
  -- Without payload digests both boundary tokens are given.
  | none => .error (.codec "boundary tokens are required without payload digests")
  | some resultDigest => do
      let header ← packDeltaHeader layout (base.digest baseSnapshotSha256) resultDigest
        baseBlockCounts resultBlockCounts baseBoundaryTokens resultBoundaryTokens
        reusedPagesByGroup integrity ((layout.layers.map fun p => p.2.name).zip tails)
      return (header ++ tails.flatten, result)

def encodePageDeltaFromCapture (layout : PageLayout) (base : CaptureBase)
    (captured : CapturedTail) (baseBlockCounts resultBlockCounts reusedPagesByGroup : List ℕ)
    (baseBoundaryTokens resultBoundaryTokens : ℕ) (baseSnapshotSha256 : Option Digest)
    (integrity : Integrity) (resultSnapshotSha256 : Option Digest) : Except CodecError Bytes := do
  let (delta, _) ← encodeFromCapture layout base captured baseBlockCounts resultBlockCounts
    reusedPagesByGroup baseBoundaryTokens resultBoundaryTokens baseSnapshotSha256 false integrity
    resultSnapshotSha256
  return delta

def encodePageDeltaFromCaptureWithResult (layout : PageLayout) (base : CaptureBase)
    (captured : CapturedTail) (baseBlockCounts resultBlockCounts reusedPagesByGroup : List ℕ)
    (baseBoundaryTokens resultBoundaryTokens : ℕ) (baseSnapshotSha256 : Option Digest)
    (integrity : Integrity) (resultSnapshotSha256 : Option Digest) :
    Except CodecError (Bytes × Bytes) := do
  let (delta, result) ← encodeFromCapture layout base captured baseBlockCounts resultBlockCounts
    reusedPagesByGroup baseBoundaryTokens resultBoundaryTokens baseSnapshotSha256 true integrity
    resultSnapshotSha256
  return (delta, result.getD [])

/-! ## Materialization -/

/-- The complete payloads of the layers by name, and the offset after their tails. -/
def materializeLayers (basePayloads : List (Str × Bytes)) (captured : CapturedTail)
    (resultCounts reused : List ℕ) :
    ℕ → Dictionary Str Bytes → List (ℕ × PageLayer) →
      Except CodecError (ℕ × Dictionary Str Bytes)
  | cursor, payloads, [] => .ok (cursor, payloads)
  | cursor, payloads, p :: rest => do
      let size := tailBytes resultCounts reused p
      let tail ← readTail captured cursor size
      let kept := (payloadOf basePayloads p.2.name).take (sharedBytes reused p)
      materializeLayers basePayloads captured resultCounts reused (cursor + size)
        (payloads.insert p.2.name (kept ++ tail)) rest

def materializePageExtensionCapture (layout : PageLayout) (baseSnapshot : Bytes)
    (captured : CapturedTail) (baseBlockCounts resultBlockCounts reusedPagesByGroup : List ℕ) :
    Except CodecError Bytes := do
  checkCaptureCounts layout baseBlockCounts resultBlockCounts reusedPagesByGroup
  require (0 < captured.totalBytes) (.codec "captured page extension payload is invalid")
  let basePayloads ← decodePageSnapshot layout baseSnapshot baseBlockCounts
  let (cursor, resultPayloads) ← materializeLayers basePayloads captured resultBlockCounts
    reusedPagesByGroup 0 ∅ layout.layers
  require (cursor = captured.totalBytes) (.codec "captured page extension has trailing bytes")
  encodePageSnapshot layout resultBlockCounts resultPayloads

/-! ## Captured layers -/

theorem bind_congr_ok {ε α β : Type} {x : Except ε α} {f g : α → Except ε β}
    (h : ∀ a, x = .ok a → f a = g a) : (x >>= f) = (x >>= g) := by
  cases x with
  | error e => rfl
  | ok a => exact h a rfl

/-- The tails of the layers in turn, and the offset after them. -/
def readTails (captured : CapturedTail) (resultCounts reused : List ℕ) :
    ℕ → List (ℕ × PageLayer) → Except CodecError (ℕ × List Bytes)
  | cursor, [] => .ok (cursor, [])
  | cursor, p :: rest => do
      let tail ← readTail captured cursor (tailBytes resultCounts reused p)
      let (last, tails) ← readTails captured resultCounts reused
        (cursor + tailBytes resultCounts reused p) rest
      return (last, tail :: tails)

theorem readTail_length {captured : CapturedTail} {cursor size : ℕ} {tail : Bytes}
    (h : readTail captured cursor size = .ok tail) : tail.length = size := by
  unfold readTail at h
  simp only [bind_eq_ok, require_eq_ok] at h
  obtain ⟨-, -, read, -, h⟩ := h
  cases read with
  | none => cases h
  | some bytes =>
      simp only [bind_eq_ok, require_eq_ok] at h
      obtain ⟨-, hlength, h⟩ := h
      cases h
      exact hlength

theorem readTails_sized {captured : CapturedTail} {resultCounts reused : List ℕ} {cursor last : ℕ}
    {layers : List (ℕ × PageLayer)} {tails : List Bytes}
    (h : readTails captured resultCounts reused cursor layers = .ok (last, tails)) :
    List.Forall₂ (fun p tail => tail.length = tailBytes resultCounts reused p) layers tails := by
  induction layers generalizing cursor last tails with
  | nil =>
      cases h
      exact .nil
  | cons p rest ih =>
      rw [readTails] at h
      simp only [bind_eq_ok, Prod.exists] at h
      obtain ⟨tail, htail, last', more, hmore, h⟩ := h
      cases h
      exact .cons (readTail_length htail) (ih hmore)

/-- The layers of the result: what is shared with the base, and the tails. -/
def joinLayers (reused : List ℕ) : List (ℕ × PageLayer) → List Bytes → List Bytes → List Bytes
  | p :: layers, payload :: payloads, tail :: tails =>
      (payload.take (sharedBytes reused p) ++ tail) :: joinLayers reused layers payloads tails
  | _, _, _ => []

/-- What the counts of a group have to do with one another. -/
structure Extended (baseCounts resultCounts reused : List ℕ) (group : ℕ) : Prop where
  positive : 0 < baseCounts.getD group 0
  shared : reused.getD group 0 ≤ baseCounts.getD group 0
  grows : baseCounts.getD group 0 ≤ resultCounts.getD group 0

section Extended
variable {baseCounts resultCounts reused : List ℕ} {p : ℕ × PageLayer}

theorem Extended.sharedBytes_le (h : Extended baseCounts resultCounts reused p.1) :
    sharedBytes reused p ≤ layerBytes baseCounts p :=
  Nat.mul_le_mul_right _ h.shared

theorem Extended.layerBytes_eq (h : Extended baseCounts resultCounts reused p.1) :
    sharedBytes reused p + tailBytes resultCounts reused p = layerBytes resultCounts p := by
  have hle := h.shared.trans h.grows
  rw [sharedBytes, tailBytes, ← Nat.add_mul, Nat.add_sub_cancel' hle]
  rfl

theorem joinLayers_sized {layers : List (ℕ × PageLayer)} {payloads tails : List Bytes}
    (hcounts : ∀ p ∈ layers, Extended baseCounts resultCounts reused p.1)
    (hpayloads : Sized baseCounts layers payloads)
    (htails : List.Forall₂ (fun p tail => tail.length = tailBytes resultCounts reused p)
      layers tails) : Sized resultCounts layers (joinLayers reused layers payloads tails) := by
  induction hpayloads generalizing tails with
  | nil =>
      cases htails
      exact .nil
  | @cons p payload layers payloads hpayload _ ih =>
      obtain ⟨tail, more, htail, hmore, rfl⟩ := List.forall₂_cons_left_iff.mp htails
      have hp := hcounts p List.mem_cons_self
      have hle := hp.sharedBytes_le
      refine .cons ?_ (ih (fun q hq => hcounts q (List.mem_cons_of_mem _ hq)) hmore)
      rw [List.length_append, List.length_take, hpayload, htail, Nat.min_eq_left hle]
      exact hp.layerBytes_eq

end Extended

theorem getD_of_checkCaptureCounts {layout : PageLayout} {baseCounts resultCounts reused : List ℕ}
    {u : Unit} (h : checkCaptureCounts layout baseCounts resultCounts reused = .ok u) {group : ℕ}
    (hgroup : group < layout.groups.length) : Extended baseCounts resultCounts reused group := by
  unfold checkCaptureCounts at h
  simp only [bind_eq_ok, require_eq_ok] at h
  obtain ⟨-, ⟨hbase, hresult, hreused⟩, hcounts⟩ := h
  have h₁ : group < reused.length := by omega
  have h₂ : group < resultCounts.length := by omega
  have h₃ : group < baseCounts.length := by omega
  have hmem : ((baseCounts[group], resultCounts[group]), reused[group]) ∈
      (baseCounts.zip resultCounts).zip reused := by
    rw [List.mem_iff_getElem]
    refine ⟨group, by simp; omega, ?_⟩
    simp
  obtain ⟨hpositive, hgrows, hshared⟩ := hcounts _ hmem
  constructor
  · rwa [List.getD_eq_getElem _ _ h₃]
  · rwa [List.getD_eq_getElem _ _ h₁, List.getD_eq_getElem _ _ h₃]
  · rwa [List.getD_eq_getElem _ _ h₃, List.getD_eq_getElem _ _ h₂]

/-! ## The encoder's result -/

namespace ResultSink

/-- The buffer has room for that many bytes more. -/
def Room (size : ℕ) : ResultSink → Prop
  | buffer output cursor => cursor + size ≤ output.length
  | _ => True

/-- A sink that took some bytes more. -/
def append (data : Bytes) : ResultSink → ResultSink
  | buffer output cursor =>
      buffer (output.take cursor ++ data ++ output.drop (cursor + data.length))
        (cursor + data.length)
  | digest taken => digest (taken ++ data)
  | nothing => nothing

theorem append_nil (sink : ResultSink) : sink.append [] = sink := by
  cases sink <;> simp [append]

theorem append_append {sink : ResultSink} {a b : Bytes} (h : sink.Room (a.length + b.length)) :
    (sink.append a).append b = sink.append (a ++ b) := by
  cases sink with
  | buffer output cursor =>
      simp only [Room] at h
      have hlength : (output.take cursor ++ a).length = cursor + a.length := by
        rw [List.length_append, List.length_take, Nat.min_eq_left (by omega)]
      simp only [append]
      have hcursor : cursor + (a ++ b).length = cursor + a.length + b.length := by
        rw [List.length_append, Nat.add_assoc]
      have hdrop : (output.take cursor ++ a ++ output.drop (cursor + a.length)).drop
          (cursor + a.length + b.length) = output.drop (cursor + a.length + b.length) := by
        rw [List.drop_append, hlength, List.drop_of_length_le (by omega), List.nil_append,
          List.drop_drop, Nat.add_sub_cancel_left]
      rw [List.take_left' hlength, hcursor, hdrop, List.append_assoc (output.take cursor)]
  | digest taken => simp [append]
  | nothing => rfl

theorem Room.append {sink : ResultSink} {a : Bytes} {size : ℕ} (h : sink.Room (a.length + size)) :
    (sink.append a).Room size := by
  cases sink with
  | buffer output cursor =>
      simp only [Room] at h
      simp only [ResultSink.append, Room, List.length_append, List.length_take, List.length_drop]
      omega
  | digest taken => trivial
  | nothing => trivial

theorem Room.mono {sink : ResultSink} {m n : ℕ} (h : sink.Room n) (hle : m ≤ n) : sink.Room m := by
  cases sink with
  | buffer output cursor => exact (Nat.add_le_add_left hle cursor).trans h
  | digest taken => trivial
  | nothing => trivial

theorem write_eq {sink : ResultSink} {data : Bytes} {size : ℕ} (hsize : data.length = size)
    (h : sink.Room size) : sink.write size data = .ok (sink.append data) := by
  cases sink with
  | buffer output cursor =>
      simp only [Room] at h
      have hslice : (slice output cursor (cursor + size)).length = data.length := by
        rw [slice_length h]
        omega
      rw [write, assign, if_pos hslice, append, hsize]
      rfl
  | digest taken => rfl
  | nothing => rfl

end ResultSink

/-- The layers of a capture are its tails, and the sink takes the layers of the result. -/
theorem captureLayers_eq {base : Bytes} {captured : CapturedTail}
    {baseCounts resultCounts reused : List ℕ} {layers : List (ℕ × PageLayer)}
    {cursor offset : ℕ} {sink : ResultSink}
    (hcounts : ∀ p ∈ layers, Extended baseCounts resultCounts reused p.1)
    (hbase : base.length = offset + (layers.map (layerBytes baseCounts)).sum)
    (hroom : sink.Room (layers.map (layerBytes resultCounts)).sum) :
    captureLayers base captured resultCounts reused cursor sink
        (layers.zip (spanList baseCounts offset layers)) =
      (do
        let (last, tails) ← readTails captured resultCounts reused cursor layers
        return (last, sink.append (joinLayers reused layers
          (spanPayloads base (spanList baseCounts offset layers)) tails).flatten, tails)) := by
  induction layers generalizing cursor offset sink with
  | nil =>
      show Except.ok _ = Except.ok _
      simp [joinLayers, ResultSink.append_nil]
  | cons p rest ih =>
      have hp := hcounts p List.mem_cons_self
      have hshared := hp.sharedBytes_le
      have hlayer := hp.layerBytes_eq
      rw [List.map_cons, List.sum_cons] at hbase hroom
      rw [spanList, List.zip_cons_cons, captureLayers, readTails, bind_assoc]
      refine bind_congr_ok fun tail htail => ?_
      have htailLength := readTail_length htail
      have hkept : (slice base offset (offset + sharedBytes reused p)).length =
          sharedBytes reused p := by
        rw [slice_length (by omega)]
        omega
      have hkeptRoom : sink.Room ((slice base offset (offset + sharedBytes reused p)).length +
          (tailBytes resultCounts reused p + (rest.map (layerBytes resultCounts)).sum)) := by
        rwa [hkept, ← Nat.add_assoc, hlayer]
      have htailRoom := hkeptRoom.append
      rw [← htailLength] at htailRoom
      dsimp only
      rw [Nat.add_sub_cancel_left,
        ResultSink.write_eq hkept (hkeptRoom.mono (by rw [hkept]; exact Nat.le_add_right _ _)),
        ← htailLength]
      show ((ResultSink.write tail.length tail (sink.append _)) >>= fun _ => _) = _
      rw [ResultSink.write_eq rfl (htailRoom.mono (Nat.le_add_right _ _))]
      show (captureLayers base captured resultCounts reused (cursor + tail.length) _ _ >>= fun _ => _) = _
      rw [ih (fun q hq => hcounts q (List.mem_cons_of_mem _ hq)) (by omega) htailRoom.append,
        bind_assoc, bind_assoc]
      refine bind_congr_ok fun r hr => ?_
      have hmore : (joinLayers reused rest (spanPayloads base
          (spanList baseCounts (offset + layerBytes baseCounts p) rest)) r.2).flatten.length =
          (rest.map (layerBytes resultCounts)).sum :=
        (joinLayers_sized (fun q hq => hcounts q (List.mem_cons_of_mem _ hq))
          (spanPayloads_sized (by omega)).1 (readTails_sized hr)).length_flatten
      rw [← hmore] at hkeptRoom htailRoom
      show Except.ok _ = Except.ok _
      rw [ResultSink.append_append htailRoom, ResultSink.append_append, ← List.append_assoc,
        slice_prefix hshared]
      · rfl
      · rwa [List.length_append, htailLength]

/-! ## One delta -/

/-- What is kept of a result of that many bytes, some of which are written. -/
def resultSink (materializeResult : Bool) (integrity : Integrity) (written : Bytes) (size : ℕ) :
    ResultSink :=
  if materializeResult then .buffer (written ++ List.replicate size 0) written.length
  else if integrity = .sha256 then .digest written
  else .nothing

theorem openSink_eq {layout : PageLayout} {resultCounts : List ℕ} {header : Bytes}
    (h : encodePageSnapshotHeader layout resultCounts = .ok header) (materializeResult : Bool)
    (integrity : Integrity) : openSink layout resultCounts materializeResult integrity header =
      .ok (resultSink materializeResult integrity header (payloadBytes layout resultCounts)) := by
  unfold openSink resultSink
  split_ifs
  · have hassign : assign ([] ++ List.replicate header.length 0 ++
        List.replicate (payloadBytes layout resultCounts) 0) 0 header.length header =
        .ok ([] ++ header ++ List.replicate (payloadBytes layout resultCounts) 0) := by
      apply assign_append rfl
      · simp
      · simp
    rw [List.nil_append, List.nil_append, ← List.replicate_add] at hassign
    rw [pageSnapshotEncodedSize_eq h]
    show (assign _ 0 header.length header >>= fun _ => _) = _
    rw [hassign]
    rfl
  · rfl
  · rfl

theorem resultSink_room (materializeResult : Bool) (integrity : Integrity) (written : Bytes)
    (size : ℕ) : (resultSink materializeResult integrity written size).Room size := by
  unfold resultSink
  split_ifs
  · simp [ResultSink.Room]
  · trivial
  · trivial

theorem resultSink_append (materializeResult : Bool) (integrity : Integrity) (written body : Bytes) :
    (resultSink materializeResult integrity written body.length).append body =
      resultSink materializeResult integrity (written ++ body) 0 := by
  unfold resultSink
  split_ifs
  · simp [ResultSink.append]
  · rfl
  · rfl

theorem resultSink_finish (materializeResult : Bool) (integrity : Integrity) (result : Bytes) :
    (resultSink materializeResult integrity result 0).finish =
      .ok (if materializeResult then some result else none) := by
  unfold resultSink
  split_ifs
  · rw [List.replicate_zero, List.append_nil, ResultSink.finish]
    simp [require, bind, Except.bind]
    rfl
  · rfl
  · rfl

theorem sinkDigest_resultSink (materializeResult : Bool) (integrity : Integrity) (result : Bytes)
    (given : Option Digest) : sinkDigest integrity given (resultSink materializeResult integrity result 0) =
      if integrity = .sha256 then some (sha256 result) else given := by
  unfold sinkDigest resultSink
  split_ifs
  · rw [List.replicate_zero, List.append_nil]
  · rfl
  · rfl

section Encoders
variable (layout : PageLayout) (base : CaptureBase) (captured : CapturedTail)
  (baseCounts resultCounts reused : List ℕ) (baseTokens resultTokens : ℕ)
  (baseSha256 : Option Digest) (integrity : Integrity) (resultSha256 : Option Digest)

/-- The delta of a capture and its result, whichever way the result is kept. -/
def capturedDelta : Except CodecError (Bytes × Bytes) := do
  validateDeltaBoundaries baseTokens resultTokens
  require (integrity = .sha256 ∨ baseSha256.isSome = true ∧ resultSha256.isSome = true)
    (.codec "boundary tokens are required without payload digests")
  checkCaptureCounts layout baseCounts resultCounts reused
  let basePlan ← planPageSnapshot layout base.payload baseCounts (some base.payload.length)
  require (0 < captured.totalBytes) (.codec "captured page extension payload is invalid")
  let resultHeader ← encodePageSnapshotHeader layout resultCounts
  let (last, tails) ← readTails captured resultCounts reused 0 layout.layers
  require (last = captured.totalBytes) (.codec "captured page extension has trailing bytes")
  let result := resultHeader ++ (joinLayers reused layout.layers
    (spanPayloads base.payload basePlan.spans) tails).flatten
  let resultDigest := if integrity = .sha256 then sha256 result
    else resultSha256.getD (sha256 result)
  let header ← packDeltaHeader layout (base.digest baseSha256) resultDigest baseCounts resultCounts
    baseTokens resultTokens reused integrity ((layout.layers.map fun p => p.2.name).zip tails)
  return (header ++ tails.flatten, result)

theorem encodeFromCapture_eq (materializeResult : Bool) :
    encodeFromCapture layout base captured baseCounts resultCounts reused baseTokens resultTokens
        baseSha256 materializeResult integrity resultSha256 =
      (do
        let (delta, result) ← capturedDelta layout base captured baseCounts resultCounts reused
          baseTokens resultTokens baseSha256 integrity resultSha256
        return (delta, if materializeResult then some result else none)) := by
  unfold encodeFromCapture capturedDelta
  simp only [bind_assoc]
  refine bind_congr_ok fun _ _ => bind_congr_ok fun _ hdigests => bind_congr_ok fun _ hcounts =>
    bind_congr_ok fun basePlan hplan => bind_congr_ok fun _ _ => bind_congr_ok fun header hheader => ?_
  obtain ⟨-, -, hspans, htotal, hsum, -⟩ := planPageSnapshot_eq_ok hplan
  have hextended : ∀ p ∈ layout.layers, Extended baseCounts resultCounts reused p.1 :=
    fun p hp => getD_of_checkCaptureCounts hcounts (layout.layers_index_lt hp)
  have hbase : base.payload.length = basePlan.headerBytes +
      (layout.layers.map (layerBytes baseCounts)).sum := htotal.symm.trans hsum
  have hlayers : ∀ tails last, readTails captured resultCounts reused 0 layout.layers =
      .ok (last, tails) → (joinLayers reused layout.layers
        (spanPayloads base.payload basePlan.spans) tails).flatten.length =
      payloadBytes layout resultCounts := by
    intro tails last htails
    rw [hspans]
    exact (joinLayers_sized hextended (spanPayloads_sized hbase).1 (readTails_sized htails)).length_flatten
  rw [openSink_eq hheader]
  show (captureLayers _ _ _ _ _ _ _ >>= fun _ => _) = _
  unfold payloadBytes at hlayers ⊢
  rw [hspans, captureLayers_eq hextended hbase (resultSink_room _ _ _ _), bind_assoc]
  refine bind_congr_ok fun r htails => ?_
  have hlength := hlayers r.2 r.1 htails
  rw [hspans] at hlength
  rw [← hlength]
  show (require _ _ >>= fun _ => _) = _
  refine bind_congr_ok fun _ _ => ?_
  show (ResultSink.finish (ResultSink.append _ _) >>= fun _ => _) = _
  dsimp only
  rw [resultSink_append, resultSink_finish]
  show (match sinkDigest _ _ _ with | none => _ | some _ => _) = _
  rw [sinkDigest_resultSink]
  by_cases hi : integrity = .sha256
  · rw [if_pos hi, if_pos hi]
    rfl
  · obtain ⟨given, rfl⟩ := Option.isSome_iff_exists.mp
      ((require_eq_ok.mp hdigests).resolve_left hi).2
    rw [if_neg hi, if_neg hi]
    rfl

/-- The two encoders return the same delta, or fail alike. -/
theorem encodePageDeltaFromCapture_eq :
    encodePageDeltaFromCapture layout base captured baseCounts resultCounts reused baseTokens
        resultTokens baseSha256 integrity resultSha256 =
      Prod.fst <$> capturedDelta layout base captured baseCounts resultCounts reused baseTokens
        resultTokens baseSha256 integrity resultSha256 := by
  rw [encodePageDeltaFromCapture, encodeFromCapture_eq, bind_assoc]
  rfl

theorem encodePageDeltaFromCaptureWithResult_eq :
    encodePageDeltaFromCaptureWithResult layout base captured baseCounts resultCounts reused
        baseTokens resultTokens baseSha256 integrity resultSha256 =
      capturedDelta layout base captured baseCounts resultCounts reused baseTokens
        resultTokens baseSha256 integrity resultSha256 := by
  rw [encodePageDeltaFromCaptureWithResult, encodeFromCapture_eq, bind_assoc]
  exact bind_pure _

end Encoders

/-! ## The materialized result -/

/-- The payloads of some layers, by name. -/
def insertLayers : Dictionary Str Bytes → List (ℕ × PageLayer) → List Bytes → Dictionary Str Bytes
  | d, p :: layers, payload :: payloads => insertLayers (d.insert p.2.name payload) layers payloads
  | d, _, _ => d

theorem insertLayers_lookup_of_notMem {layers : List (ℕ × PageLayer)} {payloads : List Bytes} {k : Str}
    (hk : k ∉ layers.map fun p => p.2.name) (d : Dictionary Str Bytes) :
    (insertLayers d layers payloads).lookup k = d.lookup k := by
  induction layers generalizing payloads d with
  | nil => rfl
  | cons p layers ih =>
      rw [List.map_cons, List.mem_cons, not_or] at hk
      cases payloads with
      | nil => rfl
      | cons payload payloads =>
          rw [insertLayers, ih hk.2]
          exact AList.lookup_insert_ne hk.1

theorem insertLayers_lookup {layers : List (ℕ × PageLayer)} {payloads : List Bytes}
    (h : (layers.map fun p => p.2.name).Nodup) (d : Dictionary Str Bytes) :
    ∀ q ∈ layers.zip payloads, (insertLayers d layers payloads).lookup q.1.2.name = some q.2 := by
  induction layers generalizing payloads d with
  | nil => simp
  | cons p layers ih =>
      rw [List.map_cons, List.nodup_cons] at h
      cases payloads with
      | nil => simp
      | cons payload payloads =>
          intro q hq
          rw [insertLayers]
          rw [List.zip_cons_cons, List.mem_cons] at hq
          rcases hq with rfl | hq
          · rw [insertLayers_lookup_of_notMem h.1]
            exact AList.lookup_insert _
          · exact ih h.2 _ q hq

theorem insertLayers_keys {layers : List (ℕ × PageLayer)} {payloads : List Bytes}
    (h : payloads.length = layers.length) (d : Dictionary Str Bytes) :
    (insertLayers d layers payloads).keys.toFinset =
      d.keys.toFinset ∪ (layers.map fun p => p.2.name).toFinset := by
  induction layers generalizing payloads d with
  | nil =>
      ext k
      simp [insertLayers]
  | cons p layers ih =>
      obtain ⟨payload, payloads, rfl⟩ := List.exists_cons_of_length_eq_add_one h
      rw [insertLayers, ih (by simpa using h)]
      ext k
      simp only [Finset.mem_union, List.mem_toFinset, AList.keys_insert, List.mem_cons, List.map_cons]
      by_cases hk : k = p.2.name
      · simp [hk]
      · simp [hk, List.mem_erase_of_ne hk]

theorem collectPayloads_eq {counts : List ℕ} {d : Dictionary Str Bytes} {layers : List (ℕ × PageLayer)}
    {payloads : List Bytes} (hsized : Sized counts layers payloads)
    (h : ∀ q ∈ layers.zip payloads, d.lookup q.1.2.name = some q.2) :
    collectPayloads counts d layers = .ok payloads := by
  induction hsized with
  | nil => rfl
  | @cons p payload layers payloads hp _ ih =>
      rw [List.zip_cons_cons] at h
      rw [collectPayloads, h (p, payload) List.mem_cons_self]
      dsimp only
      rw [if_neg (not_not.mpr hp), ih fun q hq => h q (List.mem_cons_of_mem _ hq)]
      rfl

/-- The payloads of a layout's layers can be found by name. -/
theorem payloadOf_zip {layers : List (ℕ × PageLayer)} {payloads : List Bytes}
    (h : (layers.map fun p => p.2.name).Nodup) : ∀ q ∈ layers.zip payloads,
      payloadOf ((layers.map fun p => p.2.name).zip payloads) q.1.2.name = q.2 := by
  intro q hq
  rw [payloadOf, lookup_zip h q hq, Option.getD_some]

theorem materializeLayers_eq {basePayloads : List (Str × Bytes)} {captured : CapturedTail}
    {resultCounts reused : List ℕ} {cursor : ℕ} {layers : List (ℕ × PageLayer)}
    {payloads : List Bytes} (hlength : payloads.length = layers.length)
    (h : ∀ q ∈ layers.zip payloads, payloadOf basePayloads q.1.2.name = q.2)
    (d : Dictionary Str Bytes) :
    materializeLayers basePayloads captured resultCounts reused cursor d layers =
      (do
        let (last, tails) ← readTails captured resultCounts reused cursor layers
        return (last, insertLayers d layers (joinLayers reused layers payloads tails))) := by
  induction layers generalizing payloads cursor d with
  | nil => rfl
  | cons p layers ih =>
      obtain ⟨payload, payloads, rfl⟩ := List.exists_cons_of_length_eq_add_one hlength
      rw [List.zip_cons_cons] at h
      rw [materializeLayers, readTails, bind_assoc]
      refine bind_congr_ok fun tail _ => ?_
      rw [h (p, payload) List.mem_cons_self,
        ih (by simpa using hlength) fun q hq => h q (List.mem_cons_of_mem _ hq), bind_assoc]
      rfl

theorem encodePageSnapshot_insertLayers {layout : PageLayout} {baseCounts resultCounts reused : List ℕ}
    {u : Unit} {payloads : List Bytes}
    (hcounts : checkCaptureCounts layout baseCounts resultCounts reused = .ok u)
    (hpayloads : Sized resultCounts layout.layers payloads) :
    encodePageSnapshot layout resultCounts (insertLayers ∅ layout.layers payloads) =
      (do
        let header ← encodePageSnapshotHeader layout resultCounts
        return header ++ payloads.flatten) := by
  have hlength : resultCounts.length = layout.groups.length := by
    unfold checkCaptureCounts at hcounts
    simp only [bind_eq_ok, require_eq_ok] at hcounts
    obtain ⟨-, ⟨-, hresult, hreused⟩, -⟩ := hcounts
    omega
  have hpositive : ∀ count ∈ resultCounts, 0 < count := by
    intro count hcount
    obtain ⟨group, hgroup, rfl⟩ := List.mem_iff_getElem.mp hcount
    have hextended := getD_of_checkCaptureCounts hcounts (hlength ▸ hgroup)
    rw [← List.getD_eq_getElem _ 0 hgroup]
    exact hextended.positive.trans_le hextended.grows
  have hkeys : (insertLayers ∅ layout.layers payloads).keys.toFinset =
      (layout.layers.map fun p => p.2.name).toFinset := by
    rw [insertLayers_keys hpayloads.length_eq.symm]
    simp
  have hcollect := collectPayloads_eq hpayloads (insertLayers_lookup layout.layers_nodup ∅)
  unfold encodePageSnapshot
  rw [hcollect, require, if_pos hlength, require, if_pos hpositive, require, if_pos hkeys]
  rfl

/-- The result that is materialized is what the encoders would keep. -/
theorem materializePageExtensionCapture_eq (layout : PageLayout) (base : Bytes)
    (captured : CapturedTail) (baseCounts resultCounts reused : List ℕ) :
    materializePageExtensionCapture layout base captured baseCounts resultCounts reused =
      (do
        checkCaptureCounts layout baseCounts resultCounts reused
        require (0 < captured.totalBytes) (.codec "captured page extension payload is invalid")
        let basePlan ← planPageSnapshot layout base baseCounts none
        let (last, tails) ← readTails captured resultCounts reused 0 layout.layers
        require (last = captured.totalBytes) (.codec "captured page extension has trailing bytes")
        let header ← encodePageSnapshotHeader layout resultCounts
        return header ++ (joinLayers reused layout.layers (spanPayloads base basePlan.spans)
          tails).flatten) := by
  unfold materializePageExtensionCapture decodePageSnapshot
  simp only [bind_assoc]
  refine bind_congr_ok fun _ hcounts => bind_congr_ok fun _ _ => bind_congr_ok fun basePlan hplan => ?_
  obtain ⟨-, -, hspans, htotal, hsum, -⟩ := planPageSnapshot_eq_ok hplan
  have hextended : ∀ p ∈ layout.layers, Extended baseCounts resultCounts reused p.1 :=
    fun p hp => getD_of_checkCaptureCounts hcounts (layout.layers_index_lt hp)
  have hsized := (spanPayloads_sized (htotal.symm.trans hsum)).1
  rw [← hspans] at hsized
  show (materializeLayers _ _ _ _ _ _ _ >>= fun _ => _) = _
  rw [hspans, spanList_named, ← hspans,
    materializeLayers_eq hsized.length_eq.symm (payloadOf_zip layout.layers_nodup), bind_assoc]
  refine bind_congr_ok fun r htails => ?_
  show (require _ _ >>= fun _ => _) = _
  refine bind_congr_ok fun _ _ => ?_
  exact encodePageSnapshot_insertLayers hcounts (joinLayers_sized hextended hsized
    (readTails_sized htails))

section Result
variable {layout : PageLayout} {base : CaptureBase} {captured : CapturedTail}
  {baseCounts resultCounts reused : List ℕ} {baseTokens resultTokens : ℕ}
  {baseSha256 : Option Digest} {integrity : Integrity} {resultSha256 : Option Digest}
  {result : Bytes}

theorem capturedDelta_materialized {delta : Bytes}
    (h : capturedDelta layout base captured baseCounts resultCounts reused baseTokens resultTokens
      baseSha256 integrity resultSha256 = .ok (delta, result)) :
    materializePageExtensionCapture layout base.payload captured baseCounts resultCounts reused =
      .ok result := by
  unfold capturedDelta at h
  simp only [bind_eq_ok, Prod.exists] at h
  obtain ⟨-, -, -, -, u, hcounts, basePlan, hplan, u', hpositive, header, hheader, last, tails, htails,
    u₁, hlast, _, -, h⟩ := h
  cases h
  rw [materializePageExtensionCapture_eq]
  simp only [bind_eq_ok, Prod.exists]
  exact ⟨u, hcounts, u', hpositive, basePlan, hplan, last, tails, htails, u₁, hlast, header, hheader,
    rfl⟩

/-- Where a result can be materialized, only the header can keep a delta from being encoded. -/
theorem capturedDelta_of_materialized
    (h : materializePageExtensionCapture layout base.payload captured baseCounts resultCounts reused =
      .ok result) (htokens : 0 < baseTokens ∧ baseTokens < resultTokens)
    (hdigests : integrity = .sha256 ∨ baseSha256.isSome = true ∧ resultSha256.isSome = true) :
    ∃ tails resultDigest, capturedDelta layout base captured baseCounts resultCounts reused baseTokens
        resultTokens baseSha256 integrity resultSha256 =
      (do
        let header ← packDeltaHeader layout (base.digest baseSha256) resultDigest baseCounts
          resultCounts baseTokens resultTokens reused integrity
          ((layout.layers.map fun p => p.2.name).zip tails)
        return (header ++ tails.flatten, result)) := by
  rw [materializePageExtensionCapture_eq] at h
  simp only [bind_eq_ok, Prod.exists] at h
  obtain ⟨u, hcounts, u', hpositive, basePlan, hplan, last, tails, htails, u₁, hlast, header, hheader,
    h⟩ := h
  cases h
  let result := header ++ (joinLayers reused layout.layers
    (spanPayloads base.payload basePlan.spans) tails).flatten
  refine ⟨tails, if integrity = .sha256 then sha256 result else resultSha256.getD (sha256 result), ?_⟩
  unfold capturedDelta
  rw [validateDeltaBoundaries, require, if_pos htokens, require, if_pos hdigests, hcounts,
    hpositive, hheader, htails]
  show (planPageSnapshot layout base.payload baseCounts _ >>= fun _ => _) = _
  have hplan' : planPageSnapshot layout base.payload baseCounts (some base.payload.length) =
    .ok basePlan := hplan
  rw [hplan']
  show (require _ _ >>= fun _ => _) = _
  rw [hlast]
  rfl

end Result

end SparkCache.Pages
