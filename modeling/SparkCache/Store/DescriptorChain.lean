import SparkCache.Store.Reading
import SparkCache.Store.Transaction

/-!
# Published descriptor chains

Descriptors are published in segments of sixteen, each of which names the one
before it by its digest. Reading a chain back from its last segment gives the
descriptors that were published, however long the chain is.
-/
namespace SparkCache.Store

open Files Files.FileM Json Pages

/-- `descriptors[first : first + _PREFIX_SEGMENT_DESCRIPTORS]` -/
def segmentDescriptors (ds : List ChunkDescriptor) (index : ℕ) : List ChunkDescriptor :=
  (ds.drop (index * prefixSegmentDescriptors)).take prefixSegmentDescriptors

/-- The digest of the last segment; none for an empty chain. -/
def chainRoot (segments : List Bytes) : Option Digest := segments.getLast?.map sha256

/-- The segment at an index, behind the segments before it. -/
def encodeSegment (storageKey : Digest) (ds : List ChunkDescriptor) (index : ℕ) (before : List Bytes) :
    Except StoreError Bytes :=
  dumpCanonical (segmentJson storageKey (chainRoot before) (index * prefixSegmentDescriptors)
    ((segmentDescriptors ds index).map ChunkDescriptor.json))

/-- The first segments of a chain. -/
def chainSegments (storageKey : Digest) (ds : List ChunkDescriptor) : ℕ → Except StoreError (List Bytes)
  | 0 => .ok []
  | n + 1 => do
      let before ← chainSegments storageKey ds n
      return before ++ [← encodeSegment storageKey ds n before]

def segmentObject (storageKey : Digest) (encoded : Bytes) : Path × Bytes :=
  (.prefixSegment storageKey (sha256 encoded), encoded)

/-- `_publish_descriptor_chain`: the segments of the chain. -/
def publishDescriptorChain (storageKey : Digest) (ds : List ChunkDescriptor) : StoreM (List Bytes) := do
  let segments ← lift (chainSegments storageKey ds (segmentCount ds.length))
  publishImmutableBatch (segments.map (segmentObject storageKey))
  return segments

/-! ## Segments -/

theorem chainSegments_succ {storageKey : Digest} {ds : List ChunkDescriptor} {n : ℕ}
    {segments : List Bytes} (h : chainSegments storageKey ds (n + 1) = .ok segments) :
    ∃ before encoded, chainSegments storageKey ds n = .ok before ∧
      encodeSegment storageKey ds n before = .ok encoded ∧ segments = before ++ [encoded] := by
  rw [chainSegments] at h
  simp only [bind_eq_ok] at h
  obtain ⟨before, hbefore, encoded, hencoded, h⟩ := h
  cases h
  exact ⟨before, encoded, hbefore, hencoded, rfl⟩

theorem chainSegments_of_short (storageKey : Digest) {ds : List ChunkDescriptor}
    (hshort : ∀ d ∈ ds, d.Short) {n : ℕ}
    (hn : n * prefixSegmentDescriptors < 10 ^ maxIntDigits + prefixSegmentDescriptors) :
    ∃ segments, chainSegments storageKey ds n = .ok segments := by
  induction n with
  | zero => exact ⟨[], rfl⟩
  | succ n ih =>
      simp only [prefixSegmentDescriptors] at hn ih
      obtain ⟨before, hbefore⟩ := ih (by omega)
      have hprint : (segmentJson storageKey (chainRoot before) (n * prefixSegmentDescriptors)
          ((segmentDescriptors ds n).map ChunkDescriptor.json)).printable = true := by
        apply printable_object
        simp only [List.forall_mem_cons, printable_nat, prefixSegmentDescriptors]
        refine ⟨rfl, rfl, ?_, by omega, ?_, by simp⟩
        · cases chainRoot before <;> rfl
        · rw [printable, printableItems_iff]
          intro item hitem
          obtain ⟨d, hd, rfl⟩ := List.mem_map.mp hitem
          exact (hshort d (List.mem_of_mem_drop (List.mem_of_mem_take hd))).printable
      obtain ⟨encoded, hencoded⟩ := dumpCanonical_of_printable hprint
      refine ⟨before ++ [encoded], ?_⟩
      rw [chainSegments, hbefore]
      show (encodeSegment storageKey ds n before >>= _) = _
      rw [encodeSegment, hencoded]
      rfl

/-- The first segment is that of the first descriptors. -/
theorem chainSegments_few {storageKey : Digest} {ds : List ChunkDescriptor} {n : ℕ} {segments : List Bytes}
    (hn : n ≤ 1) (h : chainSegments storageKey ds n = .ok segments) :
    ∀ e ∈ segments, encodeSegment storageKey ds 0 [] = .ok e := by
  intro e he
  obtain rfl | rfl : n = 0 ∨ n = 0 + 1 := by omega
  · cases h
    cases he
  · obtain ⟨before, encoded, hbefore, hencoded, rfl⟩ := chainSegments_succ h
    cases hbefore
    rw [List.nil_append, List.mem_singleton] at he
    rw [he]
    exact hencoded

theorem chainSegments_length {storageKey : Digest} {ds : List ChunkDescriptor} {n : ℕ} :
    ∀ {segments : List Bytes}, chainSegments storageKey ds n = .ok segments → segments.length = n := by
  induction n with
  | zero =>
      intro segments h
      cases h
      rfl
  | succ n ih =>
      intro segments h
      obtain ⟨before, encoded, hbefore, -, rfl⟩ := chainSegments_succ h
      rw [List.length_append, ih hbefore]
      rfl

/-- A shorter chain is a part of a longer one. -/
theorem chainSegments_take {storageKey : Digest} {ds : List ChunkDescriptor} {m n : ℕ} (hmn : m ≤ n) :
    ∀ {segments : List Bytes}, chainSegments storageKey ds n = .ok segments →
      chainSegments storageKey ds m = .ok (segments.take m) := by
  induction n with
  | zero =>
      intro segments h
      obtain rfl : m = 0 := by omega
      cases h
      rfl
  | succ n ih =>
      intro segments h
      by_cases hm : m = n + 1
      · subst hm
        rw [List.take_of_length_le (chainSegments_length h).le]
        exact h
      · obtain ⟨before, encoded, hbefore, -, rfl⟩ := chainSegments_succ h
        have hle : m ≤ before.length := by
          rw [chainSegments_length hbefore]
          omega
        rw [List.take_append_of_le_length hle]
        exact ih (by omega) hbefore

theorem mem_chainSegments {storageKey : Digest} {ds : List ChunkDescriptor} {n : ℕ} :
    ∀ {segments : List Bytes}, chainSegments storageKey ds n = .ok segments → ∀ e ∈ segments,
      ∃ index < n, ∃ before, encodeSegment storageKey ds index before = .ok e := by
  induction n with
  | zero =>
      intro segments h e he
      cases h
      cases he
  | succ n ih =>
      intro segments h e he
      obtain ⟨before, encoded, hbefore, hencoded, rfl⟩ := chainSegments_succ h
      rcases List.mem_append.mp he with he | he
      · obtain ⟨index, hindex, hsegment⟩ := ih hbefore e he
        exact ⟨index, by omega, hsegment⟩
      · rw [List.mem_singleton.mp he]
        exact ⟨n, by omega, before, hencoded⟩

/-- The bytes of a segment tell its place in the chain. -/
theorem encodeSegment_index {storageKey : Digest} {ds : List ChunkDescriptor} {index index' : ℕ}
    {before before' : List Bytes} {encoded : Bytes}
    (h : encodeSegment storageKey ds index before = .ok encoded)
    (h' : encodeSegment storageKey ds index' before' = .ok encoded) : index = index' := by
  have hsame := (segmentJson_plain _ _ _ _).canonicalJson?_inj (segmentJson_plain _ _ _ _)
    (dumpCanonical_eq_ok.mp h) (dumpCanonical_eq_ok.mp h')
  have hfirst := congrArg (fun v => Json.get? v "first_chunk_index") hsame
  simp only [segmentJson, get?_object (segment_nodup _ _ _ _), getField] at hfirst
  simp only [prefixSegmentDescriptors] at hfirst
  simp at hfirst
  exact hfirst

theorem readSegment_encoded {files : Disk} {storageKey : Digest} {ds : List ChunkDescriptor}
    {index : ℕ} {before : List Bytes} {encoded : Bytes} {isTail : Bool}
    (hencoded : encodeSegment storageKey ds index before = .ok encoded)
    (hfile : files.lookup (.prefixSegment storageKey (sha256 encoded)) = some encoded)
    (hne : segmentDescriptors ds index ≠ [])
    (hfull : isTail = false → (segmentDescriptors ds index).length = prefixSegmentDescriptors) :
    readSegment files storageKey index isTail (sha256 encoded) =
      .ok ⟨chainRoot before, (segmentDescriptors ds index).map ChunkDescriptor.json⟩ := by
  have hle : (segmentDescriptors ds index).length ≤ prefixSegmentDescriptors := by
    rw [segmentDescriptors, List.length_take]
    omega
  unfold readSegment
  simp only [bind_eq_ok, require_eq_ok, readBytes_eq_ok]
  refine ⟨encoded, hfile, (), rfl, _, loadJson_dumped (segmentJson_plain _ _ _ _) hencoded _, _,
    validatePrefixSegment_json hne hle, (), ?_, rfl⟩
  intro htail
  rw [List.length_map]
  exact hfull htail

/-! ## Reading back -/

/-- The segments of a chain are at their paths. -/
def Stored (files : Disk) (storageKey : Digest) (segments : List Bytes) : Prop :=
  ∀ e ∈ segments, files.lookup (.prefixSegment storageKey (sha256 e)) = some e

theorem segmentDescriptors_append (ds : List ChunkDescriptor) (index : ℕ) :
    ds.take (index * prefixSegmentDescriptors) ++ segmentDescriptors ds index =
      ds.take ((index + 1) * prefixSegmentDescriptors) := by
  rw [segmentDescriptors, ← List.take_add, Nat.succ_mul]

theorem segmentDescriptors_length (ds : List ChunkDescriptor) (index : ℕ) :
    (segmentDescriptors ds index).length =
      min prefixSegmentDescriptors (ds.length - index * prefixSegmentDescriptors) := by
  rw [segmentDescriptors, List.length_take, List.length_drop]

/-- Stored segments of one chain have different digests. -/
theorem Stored.fresh {files : Disk} {storageKey : Digest} {ds : List ChunkDescriptor} {n : ℕ}
    {before : List Bytes} {encoded : Bytes} (hstored : Stored files storageKey (before ++ [encoded]))
    (hbefore : chainSegments storageKey ds n = .ok before)
    (hencoded : encodeSegment storageKey ds n before = .ok encoded) :
    ∀ e ∈ before, sha256 e ≠ sha256 encoded := by
  intro e he hdigest
  have hfile := hstored e (List.mem_append_left _ he)
  rw [hdigest, hstored encoded (by simp)] at hfile
  obtain rfl := Option.some.inj hfile
  obtain ⟨index, hindex, before', hbefore'⟩ := mem_chainSegments hbefore _ he
  have hsame := encodeSegment_index hbefore' hencoded
  omega

theorem readSegments_stored {files : Disk} {storageKey : Digest} {ds : List ChunkDescriptor} {n : ℕ} :
    ∀ {segments : List Bytes} {visited : List Digest} {isTail : Bool} {digest : Digest},
      chainSegments storageKey ds n = .ok segments → Stored files storageKey segments →
      chainRoot segments = some digest →
      n * prefixSegmentDescriptors < ds.length + prefixSegmentDescriptors →
      (isTail = false → n * prefixSegmentDescriptors ≤ ds.length) →
      (∀ e ∈ segments, sha256 e ∉ visited) →
      readSegments files storageKey visited isTail n digest =
        .ok ((ds.take (n * prefixSegmentDescriptors)).map ChunkDescriptor.json) := by
  induction n with
  | zero =>
      intro segments visited isTail digest hchain _ hroot
      cases hchain
      cases hroot
  | succ n ih =>
      intro segments visited isTail digest hchain hstored hroot hlength hfull hfresh
      obtain ⟨before, encoded, hbefore, hencoded, rfl⟩ := chainSegments_succ hchain
      have hdigest : sha256 encoded = digest := by simpa [chainRoot] using hroot
      have hlast : encoded ∈ before ++ [encoded] := by simp
      have hlen := segmentDescriptors_length ds n
      simp only [prefixSegmentDescriptors] at hlen hlength hfull
      have hne : segmentDescriptors ds n ≠ [] := by
        rw [← List.length_pos_iff]
        omega
      have hsegment : readSegment files storageKey n isTail digest =
          .ok ⟨chainRoot before, (segmentDescriptors ds n).map ChunkDescriptor.json⟩ := by
        rw [← hdigest]
        refine readSegment_encoded hencoded (hstored encoded hlast) hne fun htail => ?_
        have := hfull htail
        rw [hlen, prefixSegmentDescriptors]
        omega
      rw [readSegments_eq_ok]
      refine ⟨hdigest ▸ hfresh encoded hlast, _, hsegment, ?_⟩
      by_cases hn : n = 0
      · subst hn
        cases hbefore
        refine Or.inl ⟨rfl, rfl, ?_⟩
        rw [← segmentDescriptors_append]
        simp
      · have hnonempty : before ≠ [] := by
          rintro rfl
          exact hn (chainSegments_length hbefore).symm
        have hparent : chainRoot before = some (sha256 (before.getLast hnonempty)) := by
          rw [chainRoot, List.getLast?_eq_getLast_of_ne_nil hnonempty]
          rfl
        have hunseen : ∀ e ∈ before, sha256 e ∉ digest :: visited := by
          intro e he hmem
          rcases List.mem_cons.mp hmem with heq | hmem
          · exact hstored.fresh hbefore hencoded e he (heq.trans hdigest.symm)
          · exact hfresh e (List.mem_append_left _ he) hmem
        have hrest : readSegments files storageKey (digest :: visited) false n _ = _ :=
          ih hbefore (fun e he => hstored e (List.mem_append_left _ he)) hparent
            (by simp only [prefixSegmentDescriptors]; omega)
            (fun _ => by simp only [prefixSegmentDescriptors]; omega) hunseen
        refine Or.inr ⟨hn, _, _, hparent, hrest, ?_⟩
        rw [← List.map_append, segmentDescriptors_append]

/-- A chain of any length is read back, as far as it is asked for. -/
theorem readDescriptorChain_stored {files : Disk} {i : IdentityView} {storageKey : Digest}
    (hkey : i.storageKey = .ok storageKey) {ds : List ChunkDescriptor} {chunkCount : ℕ}
    {segments : List Bytes} (hchain : chainSegments storageKey ds (segmentCount chunkCount) = .ok segments)
    (hstored : Stored files storageKey segments) (hle : chunkCount ≤ ds.length) :
    readDescriptorChain files i (chainRoot segments) chunkCount =
      .ok ((ds.take chunkCount).map ChunkDescriptor.json) := by
  have hcount : chunkCount ≤ segmentCount chunkCount * prefixSegmentDescriptors ∧
      segmentCount chunkCount * prefixSegmentDescriptors < chunkCount + prefixSegmentDescriptors := by
    simp only [segmentCount, prefixSegmentDescriptors]
    omega
  rw [readDescriptorChain_eq_ok]
  by_cases hzero : chunkCount = 0
  · subst hzero
    cases hchain
    exact Or.inl ⟨rfl, rfl, rfl⟩
  · have hnonempty : segments ≠ [] := by
      rintro rfl
      have hlength := chainSegments_length hchain
      rw [← hlength, List.length_nil] at hcount
      omega
    have hroot : chainRoot segments = some (sha256 (segments.getLast hnonempty)) := by
      rw [chainRoot, List.getLast?_eq_getLast_of_ne_nil hnonempty]
      rfl
    have hread : readSegments files storageKey [] true (segmentCount chunkCount) _ = _ :=
      readSegments_stored hchain hstored hroot (by omega) (by simp) (by simp)
    refine Or.inr ⟨hzero, _, storageKey, _, hroot, hkey, hread, ?_, ?_⟩
    · rw [List.length_map, List.length_take]
      omega
    · rw [← List.map_take, List.take_take, min_eq_left hcount.1]

theorem Stored.preserved {f g : Disk} (hkeep : Preserves f g) {storageKey : Digest}
    {segments : List Bytes} (h : Stored f storageKey segments) : Stored g storageKey segments :=
  fun e he => hkeep _ e (h e he) (Or.inr rfl)

/-- Segments without a collision are published, if the file system works. -/
theorem publishSegments_sound (storageKey : Digest) {segments : List Bytes}
    (hinj : Set.InjOn sha256 {e | e ∈ segments}) (files : Disk) :
    ∃ files', publishImmutableBatch (segments.map (segmentObject storageKey)) ⟨files, none⟩ =
      (.ok (), ⟨files', none⟩) := by
  refine publishPlaced_sound hinj (fun e => (segmentObject storageKey e).1) (fun _ _ => rfl) (fun _ => rfl) ?_ files
  intro o ho
  obtain ⟨e, he, rfl⟩ := List.mem_map.mp ho
  exact ⟨e, he, rfl⟩

theorem publishDescriptorChain_eq_ok {storageKey : Digest} {ds : List ChunkDescriptor}
    {segments : List Bytes} {w w' : World Path Bytes}
    (h : publishDescriptorChain storageKey ds w = (.ok segments, w')) :
    chainSegments storageKey ds (segmentCount ds.length) = .ok segments ∧
      publishImmutableBatch (segments.map (segmentObject storageKey)) w = (.ok (), w') ∧
      Stored w'.files storageKey segments := by
  unfold publishDescriptorChain at h
  simp only [FileM.bind_eq_ok, lift_apply] at h
  obtain ⟨segments', w₁, hlift, _, w₂, hpublish, hpure⟩ := h
  obtain ⟨hchain, rfl⟩ := Prod.mk.inj hlift
  cases hpure
  exact ⟨hchain, hpublish, fun e he =>
    (publishImmutableBatch_eq_ok hpublish).1 (segmentObject storageKey e) (List.mem_map_of_mem he)⟩

theorem publishDescriptorChain_grows (storageKey : Digest) (ds : List ChunkDescriptor) :
    Moves Grows (publishDescriptorChain storageKey ds) := by
  intro w
  refine Moves.lift_bind Grows.refl fun segments _ => ?_
  refine Moves.bind Grows.trans (publishImmutableBatch_grows ?_) fun _ => Moves.pure Grows.refl _
  intro o ho
  obtain ⟨e, -, rfl⟩ := List.mem_map.mp ho
  rfl

theorem publishDescriptorChain_adds {payloads : Set Bytes} {storageKey : Digest}
    {ds : List ChunkDescriptor}
    (h : ∀ segments, chainSegments storageKey ds (segmentCount ds.length) = .ok segments →
      ∀ e ∈ segments, e ∈ payloads) :
    Moves (Adds payloads) (publishDescriptorChain storageKey ds) := by
  intro w
  refine Moves.lift_bind (Adds.refl payloads) fun segments hsegments => ?_
  refine Moves.bind (Adds.trans payloads) (publishImmutableBatch_adds ?_) fun _ =>
    Moves.pure (Adds.refl payloads) _
  intro o ho
  obtain ⟨e, he, rfl⟩ := List.mem_map.mp ho
  exact h segments hsegments e he

end SparkCache.Store
