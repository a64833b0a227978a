import SparkCache.Replication.Codec
import SparkCache.Replication.Effect

/-!
# What the receiver publishes

Every publication is backed by the frames that arrived before it, the staging
tables keep their bounds, and a frame of one transaction leaves the others
alone. The first is an invariant between the tables and the frames and calls so
far; each part is preserved by every effect and hence by every run.
-/
namespace SparkCache.Replication.Receiver
variable {Time : Type*}

/-- The frames among the inputs, in order. -/
def delivered (inputs : List (Input Time)) : List Frame :=
  inputs.filterMap fun
    | .deliver d => some d.frame
    | .expire _ => none

section Invariants
variable (cfg : ReceiverConfig Time)

/-- A transaction holds only what arrived for it. -/
structure Backed (seen : List Frame) (calls : List Call) (key : Key)
    (t : ReceiveTransaction Time) : Prop where
  key_eq : (t.transactionId, t.generation) = key
  begun : ∃ f ∈ seen, f.key = key ∧ f.fields = .begin t.contextDigest t.identityDigest
  chunk : ∀ index entry, t.chunks.lookup index = some entry → ∃ f ∈ seen, f.key = key ∧
    f.fields = .putChunk index (sha256 f.payload) ∧
    entry = stagedEntry cfg f (sha256 f.payload) ∧
    ∀ call ∈ chunkCall cfg f t index (sha256 f.payload), call ∈ calls

def AllBacked (seen : List Frame) (s : Receiver Time) : Prop :=
  ∀ key t, s.active.lookup key = some t → Backed cfg seen s.calls key t

/-- The configured maxima hold. -/
structure Bounded (s : Receiver Time) : Prop where
  active : s.activeTransactions ≤ cfg.maxActiveTransactions
  bytes : s.stagedBytes ≤ cfg.maxStagedBytes
  chunks : s.stagedChunks ≤ cfg.maxStagedChunks
  committed : s.committed.size ≤ cfg.recentCommits

/-- The frames that justify publishing a replica by the COMMIT frame `f`, from a state that
was reached after the frames `seen`. -/
structure Justified (seen : List Frame) (s : Receiver Time) (f : Frame)
    (replica : CommittedReplica) (payloads : List Bytes) : Prop where
  key_eq : f.key = (replica.transactionId, replica.generation)
  begun : ∃ b ∈ seen, b.key = f.key ∧
    b.fields = .begin replica.contextDigest replica.identityDigest
  count : ∃ n : ℕ+, f.fields = .commit replica.manifestDigest n ∧
    replica.chunkDigests.length = n
  manifest : sha256 f.payload = replica.manifestDigest
  canonical : f.payload = canonicalJson (CommitRecord.json
    ⟨replica.transactionId, replica.generation, replica.contextDigest, replica.chunkDigests⟩)
  indices : ∃ t, s.active.lookup f.key = some t ∧
    ∀ index, index ∈ t.chunks ↔ index < replica.chunkDigests.length
  hashes : payloads.map sha256 = replica.chunkDigests
  arrived : ∀ index payload, payloads[index]? = some payload → ∃ p ∈ seen,
    p.key = f.key ∧ p.fields = .putChunk index (sha256 payload) ∧ p.payload = payload

/-- A publication call is justified by what came before it. A streamed replica's payloads are
those that `on_chunk` took. -/
def CallJustified (inputs : List (Input Time)) : Call → Prop
  | .chunk _ => True
  | .commit replica payloads record =>
      ∃ earlier d later, inputs = earlier ++ .deliver d :: later ∧ d.frame.payload = record ∧
        Justified (delivered earlier) (run cfg earlier) d.frame replica payloads
  | .streamCommit replica record =>
      ∃ earlier d later payloads, inputs = earlier ++ .deliver d :: later ∧
        d.frame.payload = record ∧
        Justified (delivered earlier) (run cfg earlier) d.frame replica payloads ∧
        ∀ index payload, payloads[index]? = some payload →
          Call.chunk ⟨replica.transactionId, replica.generation, replica.contextDigest,
            replica.identityDigest, index, sha256 payload, payload⟩ ∈
              (run cfg earlier).calls

end Invariants

variable {cfg : ReceiverConfig Time}

/-! ## Backed transactions -/

theorem Backed.mono {seen seen' : List Frame} {calls calls' : List Call} {key : Key}
    {t : ReceiveTransaction Time} (h : Backed cfg seen calls key t)
    (hseen : ∀ f ∈ seen, f ∈ seen') (hcalls : ∀ c ∈ calls, c ∈ calls') :
    Backed cfg seen' calls' key t where
  key_eq := h.key_eq
  begun := by
    obtain ⟨f, hf, hb⟩ := h.begun
    exact ⟨f, hseen f hf, hb⟩
  chunk := by
    intro index entry he
    obtain ⟨f, hf, hkey, hfields, hentry, hcall⟩ := h.chunk index entry he
    exact ⟨f, hseen f hf, hkey, hfields, hentry, fun c hc => hcalls c (hcall c hc)⟩

theorem AllBacked.initial (seen : List Frame) :
    AllBacked cfg seen (Receiver.initial : Receiver Time) := by
  intro key t h
  simp [Receiver.initial] at h

theorem AllBacked.expireInactive {seen : List Frame} {s : Receiver Time}
    (h : AllBacked cfg seen s) (now : Time) :
    AllBacked cfg seen (s.expireInactive cfg now) := by
  intro key t ht
  exact h key t (AList.lookup_filter_some ht)

/-- Entries that were there before stay backed. -/
theorem AllBacked.keep {seen seen' : List Frame} {s s' : Receiver Time}
    (h : AllBacked cfg seen s) (hseen : ∀ f ∈ seen, f ∈ seen')
    (hcalls : ∀ c ∈ s.calls, c ∈ s'.calls)
    (hlookup : ∀ key t, s'.active.lookup key = some t → s.active.lookup key = some t) :
    AllBacked cfg seen' s' :=
  fun key t ht => (h key t (hlookup key t ht)).mono hseen hcalls

theorem supersede_lookup {s : Receiver Time} {transactionId : TransactionId} {generation : ℕ}
    {key : Key} {t : ReceiveTransaction Time}
    (h : (s.supersede transactionId generation).active.lookup key = some t) :
    s.active.lookup key = some t := by
  rcases s.supersede_eq transactionId generation with he | ⟨latest, -, -, he⟩
  · rwa [he] at h
  · rw [he] at h
    exact (AList.lookup_erase_some h).2

theorem openTransaction_backed {f : Frame} {c i : Digest} (hf : f.fields = .begin c i)
    {seen : List Frame} (hseen : f ∈ seen) (calls : List Call) (stamp : Time) (fp : Digest) :
    Backed cfg seen calls f.key (openTransaction f c i stamp fp) where
  key_eq := rfl
  begun := ⟨f, hseen, rfl, hf⟩
  chunk := by
    intro index entry he
    simp [openTransaction] at he

theorem stagedTransaction_backed {s : Receiver Time} {d : Delivery Time}
    {t : ReceiveTransaction Time} {index : ℕ} {digest : Digest} (fp : Digest)
    (h : PutsNewChunk cfg s d t index digest) {seen : List Frame} {calls : List Call}
    (hb : Backed cfg seen calls d.frame.key t) (hseen : d.frame ∈ seen)
    (hcalls : ∀ call ∈ chunkCall cfg d.frame t index digest, call ∈ calls) :
    Backed cfg seen calls d.frame.key (stagedTransaction cfg d t index digest fp) where
  key_eq := hb.key_eq
  begun := hb.begun
  chunk := by
    intro index' entry he
    rcases AList.lookup_insert_some he with ⟨rfl, rfl⟩ | ⟨-, he⟩
    · refine ⟨d.frame, hseen, rfl, ?_, ?_, ?_⟩
      · rw [h.payload_hash]
        exact h.fields_eq
      · rw [h.payload_hash]
      · rw [h.payload_hash]
        exact hcalls
    · exact hb.chunk index' entry he

/-- Every effect of a delivery keeps all transactions backed. -/
theorem AllBacked.effect {seen : List Frame} {s s' : Receiver Time} {d : Delivery Time}
    (h : AllBacked cfg seen s) (he : Effect cfg s d s') :
    AllBacked cfg (seen ++ [d.frame]) s' := by
  have hseen : ∀ f ∈ seen, f ∈ seen ++ [d.frame] := fun f hf => by simp [hf]
  have hframe : d.frame ∈ seen ++ [d.frame] := by simp
  cases he with
  | unchanged => exact h.keep hseen (fun c hc => hc) fun key t ht => ht
  | discarded =>
      exact h.keep hseen (fun c hc => hc) fun key t ht => (AList.lookup_erase_some ht).2
  | superseded c i hf huncommitted hnew hfull =>
      exact h.keep hseen (by simp) fun key t ht => supersede_lookup ht
  | touched t ht =>
      intro key t' ht'
      rcases AList.lookup_insert_some ht' with ⟨rfl, rfl⟩ | ⟨-, ht'⟩
      · have hb := (h _ t ht).mono hseen fun c hc => hc
        exact ⟨hb.key_eq, hb.begun, hb.chunk⟩
      · exact (h key t' ht').mono hseen fun c hc => hc
  | opened c i encoded hf huncommitted hnew hroom hencode =>
      intro key t ht
      rw [rememberGeneration_active, store_active] at ht
      rw [rememberGeneration_calls, store_calls, supersede_calls]
      rcases AList.lookup_insert_some ht with ⟨rfl, rfl⟩ | ⟨-, ht⟩
      · exact openTransaction_backed hf hframe _ _ _
      · exact (h key t (supersede_lookup ht)).mono hseen fun c hc => hc
  | staged t index digest fp hput hbytes hchunks =>
      intro key t' ht'
      have hcalls : ∀ c ∈ s.calls, c ∈ s.calls ++ (chunkCall cfg d.frame t index digest).toList :=
        fun c hc => by simp [hc]
      rcases AList.lookup_insert_some ht' with ⟨rfl, rfl⟩ | ⟨-, ht'⟩
      · refine stagedTransaction_backed fp hput ?_ hframe ?_
        · exact (h _ t hput.active).mono hseen hcalls
        · intro call hcall
          exact List.mem_append_right _ (Option.mem_toList.mpr hcall)
      · exact (h key t' ht').mono hseen hcalls
  | unstaged t index digest hput =>
      exact h.keep hseen (fun c hc => List.mem_append_left _ hc) fun key t ht =>
        (AList.lookup_erase_some ht).2
  | committed t manifest count record hcommit =>
      exact h.keep hseen (fun c hc => List.mem_append_left _ hc) fun key t ht =>
        (AList.lookup_erase_some ht).2
  | unpublished t manifest count record hcommit =>
      exact h.keep hseen (fun c hc => List.mem_append_left _ hc) fun key t ht =>
        (AList.lookup_erase_some ht).2

theorem AllBacked.receive {seen : List Frame} {s : Receiver Time}
    (h : AllBacked cfg seen s) (d : Delivery Time) :
    AllBacked cfg (seen ++ [d.frame]) (s.receive cfg d).2 := by
  obtain ⟨s', heffect, hs⟩ := s.receive_effect cfg d
  have hb := (h.expireInactive d.now).effect heffect
  rcases hs with hs | hs
  · rw [hs]
    exact hb
  · rw [hs]
    exact hb.keep (fun f hf => hf) (fun c hc => hc) fun key t ht => ht

theorem run_append (inputs : List (Input Time)) (input : Input Time) :
    run cfg (inputs ++ [input]) = step cfg (run cfg inputs) input :=
  Run.exec_concat _ _ _ _

theorem allBacked_run (inputs : List (Input Time)) :
    AllBacked cfg (delivered inputs) (run cfg inputs) := by
  induction inputs using List.reverseRecOn with
  | nil => exact AllBacked.initial _
  | append_singleton inputs input ih =>
      rw [run_append]
      cases input with
      | deliver d =>
          have hd : delivered (inputs ++ [.deliver d]) = delivered inputs ++ [d.frame] := by
            simp [delivered]
          rw [hd]
          exact ih.receive d
      | expire now =>
          have hd : delivered (inputs ++ [.expire now]) = delivered inputs := by
            simp [delivered]
          rw [hd]
          exact ih.expireInactive now

/-! ## Justified publications -/

theorem recordMatches_eq_true {t : ReceiveTransaction Time} {record : CommitRecord} {count : ℕ}
    (h : recordMatches t record count = true) :
    record = ⟨t.transactionId, t.generation, t.contextDigest,
        (orderedChunks t count).map Prod.fst⟩ ∧
      record.chunkDigests.length = count ∧ ∀ index, index ∈ t.chunks ↔ index < count := by
  simp only [recordMatches, Bool.and_eq_true, decide_eq_true_eq] at h
  obtain ⟨⟨⟨⟨⟨htransaction, hgeneration⟩, hcontext⟩, hlength⟩, hindices⟩, hdigests⟩ := h
  refine ⟨?_, hlength, fun index => ?_⟩
  · rw [← htransaction, ← hgeneration, ← hcontext, hdigests]
  · rw [← Finset.mem_range, ← hindices, List.mem_toFinset, AList.mem_keys]

/-- The PUT_CHUNK frames behind a complete chunk table, by index. -/
theorem Backed.frames {seen : List Frame} {calls : List Call} {key : Key}
    {t : ReceiveTransaction Time} (h : Backed cfg seen calls key t) {count : ℕ}
    (hindices : ∀ index, index ∈ t.chunks ↔ index < count) :
    ∃ frame : ℕ → Frame, ∀ index < count, frame index ∈ seen ∧ (frame index).key = key ∧
      (frame index).fields = .putChunk index (sha256 (frame index).payload) ∧
      t.chunks.lookup index =
        some (stagedEntry cfg (frame index) (sha256 (frame index).payload)) ∧
      ∀ call ∈ chunkCall cfg (frame index) t index (sha256 (frame index).payload),
        call ∈ calls := by
  have hexists : ∀ index, index < count → ∃ f : Frame, f ∈ seen ∧ f.key = key ∧
      f.fields = .putChunk index (sha256 f.payload) ∧
      t.chunks.lookup index = some (stagedEntry cfg f (sha256 f.payload)) ∧
      ∀ call ∈ chunkCall cfg f t index (sha256 f.payload), call ∈ calls := by
    intro index hlt
    have hsome := AList.lookup_isSome.mpr ((hindices index).mpr hlt)
    obtain ⟨entry, hentry⟩ := Option.isSome_iff_exists.mp hsome
    obtain ⟨f, hf, hkey, hfields, heq, hcall⟩ := h.chunk index entry hentry
    exact ⟨f, hf, hkey, hfields, by rw [hentry, heq], hcall⟩
  obtain ⟨f0, -, -⟩ := h.begun
  have hne : Nonempty Frame := ⟨f0⟩
  choose! frame hframe using hexists
  exact ⟨frame, hframe⟩

theorem orderedChunks_eq {t : ReceiveTransaction Time} {count : ℕ} {entry : ℕ → ChunkEntry}
    (h : ∀ index < count, t.chunks.lookup index = some (entry index)) :
    orderedChunks t count = (List.range count).map entry := by
  rw [orderedChunks, ← List.filterMap_eq_map]
  apply List.filterMap_congr
  intro index hindex
  exact h index (List.mem_range.mp hindex)

/-- The payloads, by index, of a COMMIT that is about to be published. -/
theorem Commits.justified {seen : List Frame} {s : Receiver Time} {d : Delivery Time}
    {t : ReceiveTransaction Time} {manifestDigest : Digest} {count : ℕ+} {record : CommitRecord}
    (h : Commits (s.expireInactive cfg d.now) d t manifestDigest count record)
    (hb : AllBacked cfg seen s) :
    ∃ payloads : List Bytes,
      Justified seen s d.frame (committedReplica t manifestDigest count) payloads ∧
      (cfg.onChunk = false → (orderedChunks t count).filterMap Prod.snd = payloads) ∧
      (cfg.onChunk = true → ∀ index payload, payloads[index]? = some payload →
        Call.chunk ⟨t.transactionId, t.generation, t.contextDigest, t.identityDigest, index,
          sha256 payload, payload⟩ ∈ s.calls) := by
  have hactive : s.active.lookup d.frame.key = some t := AList.lookup_filter_some h.active
  have hbacked := hb _ t hactive
  obtain ⟨hrecord, hlength, hindices⟩ := recordMatches_eq_true h.record_matches
  obtain ⟨hcanonical, -, -⟩ := decodeCommitRecord_eq_ok h.decoded
  obtain ⟨frame, hframe⟩ := hbacked.frames hindices
  have hordered := orderedChunks_eq fun index hlt => (hframe index hlt).2.2.2.1
  have hget : ∀ (index : ℕ) (payload : Bytes),
      ((List.range count).map fun i => (frame i).payload)[index]? = some payload →
        index < count ∧ (frame index).payload = payload := by
    intro index payload hp
    rw [List.getElem?_map, Option.map_eq_some_iff] at hp
    obtain ⟨i, hi, hp⟩ := hp
    obtain ⟨hlt, hi⟩ := List.getElem?_eq_some_iff.mp hi
    rw [List.getElem_range] at hi
    subst hi
    exact ⟨by simpa using hlt, hp⟩
  have hdigests : (orderedChunks t count).map Prod.fst =
      ((List.range count).map fun i => (frame i).payload).map sha256 := by
    rw [hordered, List.map_map, List.map_map]
    rfl
  refine ⟨(List.range count).map fun i => (frame i).payload, ?_, ?_, ?_⟩
  · refine
      { key_eq := hbacked.key_eq.symm
        begun := hbacked.begun
        count := ⟨count, h.fields_eq, ?_⟩
        manifest := h.payload_hash
        canonical := ?_
        indices := ⟨t, hactive, ?_⟩
        hashes := hdigests.symm
        arrived := ?_ }
    · simp [committedReplica, hdigests]
    · rw [hcanonical, hrecord]
      rfl
    · intro index
      rw [hindices index]
      simp [committedReplica, hdigests]
    · intro index payload hp
      obtain ⟨hlt, rfl⟩ := hget index payload hp
      obtain ⟨hmem, hkey, hfields, -, -⟩ := hframe index hlt
      exact ⟨frame index, hmem, hkey, hfields, rfl⟩
  · intro hstage
    rw [hordered, List.filterMap_map]
    simp [stagedEntry, hstage]
  · intro hstream index payload hp
    obtain ⟨hlt, rfl⟩ := hget index payload hp
    obtain ⟨-, -, -, -, hcall⟩ := hframe index hlt
    apply hcall
    simp [chunkCall, hstream]

/-- A delivery makes at most one call: of `on_chunk`, or for a COMMIT. -/
theorem Effect.calls {s s' : Receiver Time} {d : Delivery Time} (h : Effect cfg s d s') :
    s'.calls = s.calls ∨ (∃ t index digest,
      s'.calls = s.calls ++ (chunkCall cfg d.frame t index digest).toList) ∨
      ∃ t manifestDigest count record, Commits s d t manifestDigest count record ∧
        s'.calls = s.calls ++ (commitCall cfg d.frame t manifestDigest count).toList := by
  cases h with
  | unchanged => exact Or.inl rfl
  | discarded => exact Or.inl rfl
  | superseded c i hf huncommitted hnew hfull => exact Or.inl (supersede_calls _ _ _)
  | touched t ht => exact Or.inl rfl
  | opened c i encoded hf huncommitted hnew hroom hencode => exact Or.inl (by simp)
  | staged t index digest fp hput hbytes hchunks => exact Or.inr (Or.inl ⟨t, index, digest, rfl⟩)
  | unstaged t index digest hput => exact Or.inr (Or.inl ⟨t, index, digest, rfl⟩)
  | committed t manifest count record hcommit =>
      exact Or.inr (Or.inr ⟨t, manifest, count, record, hcommit, rfl⟩)
  | unpublished t manifest count record hcommit =>
      exact Or.inr (Or.inr ⟨t, manifest, count, record, hcommit, rfl⟩)

theorem CallJustified.mono {inputs : List (Input Time)} {call : Call}
    (h : CallJustified cfg inputs call) (input : Input Time) :
    CallJustified cfg (inputs ++ [input]) call := by
  cases call with
  | chunk c => trivial
  | commit replica payloads record =>
      obtain ⟨earlier, d, later, rfl, h⟩ := h
      exact ⟨earlier, d, later ++ [input], by simp, h⟩
  | streamCommit replica record =>
      obtain ⟨earlier, d, later, payloads, rfl, h⟩ := h
      exact ⟨earlier, d, later ++ [input], payloads, by simp, h⟩

theorem commitCall_justified {inputs : List (Input Time)} {d : Delivery Time}
    {t : ReceiveTransaction Time} {manifestDigest : Digest} {count : ℕ+} {record : CommitRecord}
    (h : Commits ((run cfg inputs).expireInactive cfg d.now) d t manifestDigest
      count record) {call : Call} (hc : commitCall cfg d.frame t manifestDigest count = some call) :
    CallJustified cfg (inputs ++ [.deliver d]) call := by
  obtain ⟨payloads, hjustified, hstaged, hstreamed⟩ := h.justified (allBacked_run inputs)
  unfold commitCall at hc
  dsimp only at hc
  by_cases hchunk : cfg.onChunk = true
  · rw [if_pos hchunk] at hc
    split_ifs at hc with hstream
    cases hc
    exact ⟨inputs, d, [], payloads, rfl, rfl, hjustified, hstreamed hchunk⟩
  · rw [if_neg hchunk] at hc
    split_ifs at hc with hcommit
    cases hc
    rw [Bool.not_eq_true] at hchunk
    rw [hstaged hchunk]
    exact ⟨inputs, d, [], rfl, rfl, hjustified⟩

theorem receive_calls (inputs : List (Input Time)) (d : Delivery Time) (call : Call)
    (h : call ∈ (step cfg (run cfg inputs) (.deliver d)).calls) :
    call ∈ (run cfg inputs).calls ∨
      CallJustified cfg (inputs ++ [.deliver d]) call := by
  obtain ⟨s', heffect, hs⟩ :=
    (run cfg inputs).receive_effect cfg d
  have hcalls : (step cfg (run cfg inputs) (.deliver d)).calls = s'.calls := by
    rcases hs with hs | hs
    · rw [step, hs]
    · rw [step, hs]
      rfl
  rw [hcalls] at h
  rcases heffect.calls with hc | ⟨t, index, digest, hc⟩ | ⟨t, manifest, count, record, hcommit, hc⟩
  · rw [hc] at h
    exact Or.inl h
  · rw [hc] at h
    rcases List.mem_append.mp h with h | h
    · exact Or.inl h
    · right
      unfold chunkCall at h
      split_ifs at h
      · simp only [Option.toList_some, List.mem_singleton] at h
        rw [h]
        trivial
      · simp at h
  · rw [hc] at h
    rcases List.mem_append.mp h with h | h
    · exact Or.inl h
    · exact Or.inr (commitCall_justified hcommit (Option.mem_toList.mp h))

theorem calls_justified (inputs : List (Input Time)) :
    ∀ call ∈ (run cfg inputs).calls, CallJustified cfg inputs call := by
  induction inputs using List.reverseRecOn with
  | nil =>
      intro call h
      simp [run, Receiver.initial] at h
  | append_singleton inputs input ih =>
      intro call h
      rw [run_append] at h
      cases input with
      | deliver d =>
          rcases receive_calls inputs d call h with h | h
          · exact (ih call h).mono _
          · exact h
      | expire now => exact (ih call h).mono _

/-! ## Bounds -/

theorem Bounded.initial : Bounded cfg (Receiver.initial : Receiver Time) := by
  constructor <;> exact Nat.zero_le _

/-- A smaller staging table keeps the bounds. -/
theorem Bounded.of_le {s s' : Receiver Time} (h : Bounded cfg s)
    (hsize : s'.active.size ≤ s.active.size)
    (hbytes : s'.active.total ReceiveTransaction.stagedBytes ≤ s.stagedBytes)
    (hchunks : s'.active.total ReceiveTransaction.stagedChunks ≤ s.stagedChunks)
    (hcommitted : s'.committed.size ≤ cfg.recentCommits) : Bounded cfg s' :=
  ⟨hsize.trans h.active, hbytes.trans h.bytes, hchunks.trans h.chunks, hcommitted⟩

theorem Bounded.erase {s s' : Receiver Time} (h : Bounded cfg s) {key : Key}
    (hactive : s'.active = s.active.erase key)
    (hcommitted : s'.committed.size ≤ cfg.recentCommits) : Bounded cfg s' := by
  apply h.of_le _ _ _ hcommitted
  · rw [hactive]
    exact AList.size_erase_le _ _
  · rw [hactive]
    exact AList.total_erase_le _ _ _
  · rw [hactive]
    exact AList.total_erase_le _ _ _

theorem Bounded.supersede {s : Receiver Time} (h : Bounded cfg s) (transactionId : TransactionId)
    (generation : ℕ) : Bounded cfg (s.supersede transactionId generation) := by
  rcases s.supersede_eq transactionId generation with he | ⟨latest, -, -, he⟩
  · rwa [he]
  · rw [he]
    exact h.erase rfl h.committed

theorem Bounded.expireInactive {s : Receiver Time} (h : Bounded cfg s) (now : Time) :
    Bounded cfg (s.expireInactive cfg now) :=
  h.of_le (AList.size_filter_le _ _) (AList.total_filter_le _ _ _) (AList.total_filter_le _ _ _)
    h.committed

/-- Staging one chunk adds its entry and nothing else. -/
theorem stagedTransaction_total (d : Delivery Time) {t : ReceiveTransaction Time} {index : ℕ}
    (digest fp : Digest) (measure : ChunkEntry → ℕ) (hnew : t.chunks.lookup index = none) :
    (stagedTransaction cfg d t index digest fp).chunks.total measure =
      t.chunks.total measure + measure (stagedEntry cfg d.frame digest) :=
  AList.total_insert_of_none measure hnew _

theorem Bounded.effect {s s' : Receiver Time} {d : Delivery Time} (h : Bounded cfg s)
    (he : Effect cfg s d s') : Bounded cfg s' := by
  cases he with
  | unchanged => exact h
  | discarded => exact h.erase rfl h.committed
  | superseded c i hf huncommitted hnew hfull => exact h.supersede _ _
  | touched t ht =>
      have hbytes := AList.total_insert_of_lookup ReceiveTransaction.stagedBytes ht
        { t with lastActivity := d.stamp }
      have hchunks := AList.total_insert_of_lookup ReceiveTransaction.stagedChunks ht
        { t with lastActivity := d.stamp }
      refine h.of_le (AList.size_insert_of_lookup ht _).le ?_ ?_ h.committed
      · exact (Nat.add_right_cancel hbytes).le
      · exact (Nat.add_right_cancel hchunks).le
  | opened c i encoded hf huncommitted hnew hroom hencode =>
      have hs := h.supersede d.frame.transactionId d.frame.generation
      have hnew' : (s.supersede d.frame.transactionId d.frame.generation).active.lookup
          d.frame.key = none := by
        cases hl : (s.supersede d.frame.transactionId d.frame.generation).active.lookup
            d.frame.key with
        | none => rfl
        | some t =>
            rw [supersede_lookup hl] at hnew
            cases hnew
      refine ⟨?_, ?_, ?_, ?_⟩
      · simp only [activeTransactions, rememberGeneration_active, store_active] at hroom ⊢
        rw [AList.size_insert_of_none hnew']
        exact hroom
      · simp only [stagedBytes, rememberGeneration_active, store_active]
        rw [AList.total_insert_of_none _ hnew']
        exact hs.bytes
      · simp only [stagedChunks, rememberGeneration_active, store_active]
        rw [AList.total_insert_of_none _ hnew']
        exact hs.chunks
      · simpa using hs.committed
  | staged t index digest fp hput hbytes hchunks =>
      have hb := AList.total_insert_of_lookup ReceiveTransaction.stagedBytes hput.active
        (stagedTransaction cfg d t index digest fp)
      have hc := AList.total_insert_of_lookup ReceiveTransaction.stagedChunks hput.active
        (stagedTransaction cfg d t index digest fp)
      have htb : (stagedTransaction cfg d t index digest fp).stagedBytes = t.stagedBytes + _ :=
        stagedTransaction_total d digest fp ChunkEntry.stagedBytes hput.index_new
      have htc : (stagedTransaction cfg d t index digest fp).stagedChunks = t.stagedChunks + _ :=
        stagedTransaction_total d digest fp ChunkEntry.stagedChunks hput.index_new
      refine ⟨?_, ?_, ?_, h.committed⟩
      · exact (AList.size_insert_of_lookup hput.active _).le.trans h.active
      · unfold stagedBytes at *
        rw [store_active, log_active]
        omega
      · unfold stagedChunks at *
        rw [store_active, log_active]
        omega
  | unstaged t index digest hput => exact h.erase rfl h.committed
  | committed t manifest count record hcommit =>
      refine h.erase rfl ?_
      rw [recordCommit_committed, AList.size_newest]
      exact min_le_left _ _
  | unpublished t manifest count record hcommit => exact h.erase rfl h.committed

theorem Bounded.receive {s : Receiver Time} (h : Bounded cfg s) (d : Delivery Time) :
    Bounded cfg (s.receive cfg d).2 := by
  obtain ⟨s', heffect, hs⟩ := s.receive_effect cfg d
  have hb := (h.expireInactive d.now).effect heffect
  rcases hs with hs | hs
  · rw [hs]
    exact hb
  · rw [hs]
    exact ⟨hb.active, hb.bytes, hb.chunks, hb.committed⟩

theorem bounded_run (inputs : List (Input Time)) : Bounded cfg (run cfg inputs) := by
  refine Run.invariant (fun s input h => ?_) Bounded.initial inputs
  cases input with
  | deliver d => exact h.receive d
  | expire now => exact h.expireInactive now

/-! ## Isolation -/

/-- The commit records of other transaction names, newest first. -/
def otherCommits (s : Receiver Time) (transactionId : TransactionId) :
    List ((_ : Key) × CommittedReplica) :=
  s.committed.entries.filter fun e => e.1.1 ≠ transactionId

/-- From `s` to `s'` other names keep their transactions, and lose only oldest commit records
to the table's bound. -/
structure Isolated (cfg : ReceiverConfig Time) (transactionId : TransactionId)
    (s s' : Receiver Time) : Prop where
  active : ∀ key : Key, key.1 ≠ transactionId → s'.active.lookup key = s.active.lookup key
  committed : ∃ oldest, s.otherCommits transactionId = s'.otherCommits transactionId ++ oldest ∧
    (oldest ≠ [] → s'.committed.size = cfg.recentCommits)

theorem Isolated.of_active {transactionId : TransactionId} {s s' : Receiver Time}
    (hactive : ∀ key : Key, key.1 ≠ transactionId →
      s'.active.lookup key = s.active.lookup key)
    (hcommitted : s'.committed = s.committed) : Isolated cfg transactionId s s' :=
  ⟨hactive, [], by simp [otherCommits, hcommitted], by simp⟩

theorem key_ne {f : Frame} {key : Key} (h : key.1 ≠ f.transactionId) : key ≠ f.key := by
  rintro rfl
  exact h rfl

theorem supersede_lookup_ne (s : Receiver Time) {transactionId : TransactionId} (generation : ℕ)
    {key : Key} (h : key.1 ≠ transactionId) :
    (s.supersede transactionId generation).active.lookup key = s.active.lookup key := by
  rcases s.supersede_eq transactionId generation with he | ⟨latest, -, -, he⟩
  · rw [he]
  · rw [he, discard_active, AList.lookup_erase_ne]
    rintro rfl
    exact h rfl

theorem recordCommit_isolated (s : Receiver Time) (f : Frame) (replica : CommittedReplica)
    (hnew : s.committed.lookup f.key = none) :
    ∃ oldest, s.otherCommits f.transactionId =
      (s.recordCommit cfg f.key replica).otherCommits f.transactionId ++ oldest ∧
      (oldest ≠ [] → (s.recordCommit cfg f.key replica).committed.size = cfg.recentCommits) := by
  have hentries : (s.committed.insert f.key replica).entries =
      ⟨f.key, replica⟩ :: s.committed.entries :=
    AList.entries_insert_of_notMem (AList.lookup_eq_none.mp hnew)
  have hother : s.otherCommits f.transactionId =
      (s.committed.insert f.key replica).entries.filter fun e => e.1.1 ≠ f.transactionId := by
    rw [hentries, List.filter_cons_of_neg (by simp [Header.key])]
    rfl
  refine ⟨((s.committed.insert f.key replica).entries.drop cfg.recentCommits).filter
    fun e => e.1.1 ≠ f.transactionId, ?_, ?_⟩
  · rw [hother, ← List.take_append_drop cfg.recentCommits
      (s.committed.insert f.key replica).entries, List.filter_append]
    simp [otherCommits, AList.newest]
  · intro hne
    rw [recordCommit_committed, AList.size_newest, Nat.min_eq_left]
    by_contra hlt
    apply hne
    rw [List.drop_eq_nil_of_le (Nat.le_of_not_le hlt)]
    rfl

theorem Effect.isolated {s s' : Receiver Time} {d : Delivery Time}
    (he : Effect cfg s d s') : Isolated cfg d.frame.transactionId s s' := by
  cases he with
  | unchanged => exact .of_active (fun key hk => rfl) rfl
  | discarded => exact .of_active (fun key hk => AList.lookup_erase_ne (key_ne hk)) rfl
  | superseded c i hf huncommitted hnew hfull =>
      exact .of_active (fun key hk => s.supersede_lookup_ne _ hk) (supersede_committed _ _ _)
  | touched t ht => exact .of_active (fun key hk => AList.lookup_insert_ne (key_ne hk)) rfl
  | opened c i encoded hf huncommitted hnew hroom hencode =>
      refine .of_active (fun key hk => ?_) (by simp)
      rw [rememberGeneration_active, store_active, AList.lookup_insert_ne (key_ne hk),
        s.supersede_lookup_ne _ hk]
  | staged t index digest fp hput hbytes hchunks =>
      exact .of_active (fun key hk => AList.lookup_insert_ne (key_ne hk)) rfl
  | unstaged t index digest hput =>
      exact .of_active (fun key hk => AList.lookup_erase_ne (key_ne hk)) rfl
  | committed t manifest count record hcommit =>
      exact ⟨fun key hk => AList.lookup_erase_ne (key_ne hk),
        (s.log _).recordCommit_isolated d.frame _ hcommit.uncommitted⟩
  | unpublished t manifest count record hcommit =>
      exact .of_active (fun key hk => AList.lookup_erase_ne (key_ne hk)) rfl

/-- A delivery leaves every transaction of another name as the expiry left it. -/
theorem receive_isolated (s : Receiver Time) (d : Delivery Time) :
    Isolated cfg d.frame.transactionId (s.expireInactive cfg d.now)
      (s.receive cfg d).2 := by
  obtain ⟨s', heffect, hs⟩ := s.receive_effect cfg d
  have hi := heffect.isolated
  rcases hs with hs | hs
  · rw [hs]
    exact hi
  · rw [hs]
    exact ⟨hi.active, hi.committed⟩

/-- The receiver publishes only what arrived intact, stays within its bounds, and keeps
transactions apart, whatever frames arrive. -/
theorem receiver_safe (cfg : ReceiverConfig Time)
    (inputs : List (Input Time)) :
    (∀ call ∈ (run cfg inputs).calls, CallJustified cfg inputs call) ∧
      Bounded cfg (run cfg inputs) ∧
      ∀ d : Delivery Time, Isolated cfg d.frame.transactionId
        ((run cfg inputs).expireInactive cfg d.now)
        (run cfg (inputs ++ [.deliver d])) := by
  refine ⟨calls_justified inputs, bounded_run inputs, fun d => ?_⟩
  rw [run_append]
  exact receive_isolated _ d

end SparkCache.Replication.Receiver
