import SparkCache.Replication.ReceiverSafety
import SparkCache.Replication.Transaction

/-!
# The receiver follows one transaction

What the receiver's tables hold for a transaction of which it has received some
frames, each after all that were offered before it. The next such frame is
answered without refusal as long as no bound is exceeded and no callback
raises; after the commit this holds for every frame but a PUT_CHUNK.
-/
namespace SparkCache.Replication

def AckStatus.refusal (status : AckStatus) : Bool := status = .rejected || status = .aborted

namespace Receiver
variable {Time : Type*} (cfg : ReceiverConfig Time)

/-- The handler runs into one of the configured bounds. -/
def exceedsBound (s : Receiver Time) (f : Frame) : Bool :=
  match f.fields with
  | .begin .. =>
      (s.committed.lookup f.key).isNone && (s.active.lookup f.key).isNone &&
        (cfg.maxActiveTransactions ≤
            (s.supersede f.transactionId f.generation).activeTransactions ||
          cfg.recentGenerations < (s.latestGeneration.insert f.transactionId f.generation).size)
  | .putChunk index digest =>
      match s.active.lookup f.key with
      | none => false
      | some t =>
          (t.sequences.lookup f.sequence).isNone && (t.chunks.lookup index).isNone &&
            (cfg.maxContextChunks < t.chunks.size + 1 ||
              cfg.maxStagedBytes < s.stagedBytes + (stagedEntry cfg f digest).stagedBytes ||
              cfg.maxStagedChunks < s.stagedChunks + (stagedEntry cfg f digest).stagedChunks)
  | .commit .. =>
      (s.committed.lookup f.key).isNone && (s.active.lookup f.key).isSome &&
        cfg.recentCommits < s.committed.size + 1
  | _ => false

/-- The open transaction holds exactly what the received frames brought. -/
structure Tracks (key : Key) (received : List Frame) (t : ReceiveTransaction Time) : Prop where
  named : t.transactionId = key.1 ∧ t.generation = key.2
  begun : ∃ g ∈ received, g.fields = .begin t.contextDigest t.identityDigest
  plain : ∀ g ∈ received, g.frameType ∈ [.BEGIN, .PUT_CHUNK]
  fingerprints : ∀ g ∈ received, g.frameType = .PUT_CHUNK →
    ∃ encoded, g.encode = .ok encoded ∧ t.sequences.lookup g.sequence = some (sha256 encoded)
  sequences : ∀ n fingerprint, t.sequences.lookup n = some fingerprint →
    ∃ g ∈ received, g.sequence = n
  chunks : ∀ index digest, (∃ payload, t.chunks.lookup index = some (digest, payload)) ↔
    ∃ g ∈ received, g.fields = .putChunk index digest

/-- How far the receiver is with a transaction. -/
inductive Progress (key : Key) (received : List Frame) (s : Receiver Time) : Prop
  | fresh (hr : received = []) (hc : s.committed.lookup key = none)
      (ha : s.active.lookup key = none)
  | opened (t : ReceiveTransaction Time) (ht : Tracks key received t)
      (hc : s.committed.lookup key = none) (ha : s.active.lookup key = some t)
  | done (replica : CommittedReplica) (count : ℕ+)
      (hb : ∃ g ∈ received, g.fields = .begin replica.contextDigest replica.identityDigest)
      (hm : ∃ g ∈ received, g.fields = .commit replica.manifestDigest count)
      (hc : s.committed.lookup key = some replica) (ha : s.active.lookup key = none)

/-- A frame of the script arrives after all that were offered before it. -/
structure Arrives (offers received : List Frame) (f : Frame) : Prop where
  script : Script offers
  live : ∀ g ∈ offers, g.frameType ≠ .ABORT
  received_mem : ∀ g ∈ received, g ∈ offers
  split : ∃ before after, offers = before ++ f :: after ∧ ∀ g ∈ before, g ∈ received

/-- The handler's answer is no refusal and the receiver has followed the frame. -/
def FollowedBy (key : Key) (received : List Frame) (outcome : Option (Handled Time)) : Prop :=
  ∃ status s, outcome = some (.ok status, s) ∧ status.refusal = false ∧ Progress key received s

variable {cfg} {key : Key} {offers received : List Frame} {f : Frame} {s s' : Receiver Time}
  {d : Delivery Time}

theorem Arrives.mem (h : Arrives offers received f) : f ∈ offers := by
  obtain ⟨before, after, he, -⟩ := h.split
  rw [he]
  simp

theorem Arrives.continues (h : Arrives offers received f) :
    ∃ before after, offers = before ++ f :: after ∧ (∀ g ∈ before, g ∈ received) ∧
      Continues before f := by
  obtain ⟨before, after, he, hbefore⟩ := h.split
  exact ⟨before, after, he, hbefore, (h.script.split he).resolve_left (h.live f h.mem)⟩

theorem Progress.congr (h : Progress key received s)
    (hc : s'.committed.lookup key = s.committed.lookup key)
    (ha : s'.active.lookup key = s.active.lookup key) : Progress key received s' := by
  cases h with
  | fresh hr hc0 ha0 => exact .fresh hr (hc.trans hc0) (ha.trans ha0)
  | opened t ht hc0 ha0 => exact .opened t ht (hc.trans hc0) (ha.trans ha0)
  | done replica count hb hm hc0 ha0 =>
      exact .done replica count hb hm (hc.trans hc0) (ha.trans ha0)

/-- A frame received again changes nothing but the time of the last activity. -/
theorem Tracks.again {t : ReceiveTransaction Time} (h : Tracks key received t)
    (hf : f ∈ received) (stamp : Time) :
    Tracks key (received ++ [f]) { t with lastActivity := stamp } := by
  have hmem : ∀ g, g ∈ received ++ [f] ↔ g ∈ received := by
    intro g
    rw [List.mem_append, List.mem_singleton]
    constructor
    · rintro (hg | rfl)
      · exact hg
      · exact hf
    · exact Or.inl
  refine
    { named := h.named, begun := ?_, plain := ?_, fingerprints := ?_, sequences := ?_,
      chunks := ?_ }
  · obtain ⟨g, hg, hfields⟩ := h.begun
    exact ⟨g, (hmem g).mpr hg, hfields⟩
  · exact fun g hg => h.plain g ((hmem g).mp hg)
  · exact fun g hg => h.fingerprints g ((hmem g).mp hg)
  · intro n fingerprint hn
    obtain ⟨g, hg, hs⟩ := h.sequences n fingerprint hn
    exact ⟨g, (hmem g).mpr hg, hs⟩
  · intro index digest
    rw [h.chunks index digest]
    simp only [hmem]

theorem Progress.again_done {replica : CommittedReplica} {count : ℕ+}
    (hb : ∃ g ∈ received, g.fields = .begin replica.contextDigest replica.identityDigest)
    (hm : ∃ g ∈ received, g.fields = .commit replica.manifestDigest count)
    (hc : s.committed.lookup key = some replica) (ha : s.active.lookup key = none) :
    Progress key (received ++ [f]) s := by
  obtain ⟨b, hb, hbf⟩ := hb
  obtain ⟨m, hm, hmf⟩ := hm
  exact .done replica count ⟨b, List.mem_append_left _ hb, hbf⟩
    ⟨m, List.mem_append_left _ hm, hmf⟩ hc ha

theorem openTransaction_tracks (c i : Digest) (hfields : f.fields = .begin c i) (stamp : Time)
    (fingerprint : Digest) :
    Tracks f.key [f] (openTransaction f c i stamp fingerprint) := by
  have htype : f.frameType = .BEGIN := Frame.frameType_of_fields hfields
  refine
    { named := ⟨rfl, rfl⟩, begun := ⟨f, by simp, hfields⟩, plain := ?_, fingerprints := ?_,
      sequences := ?_, chunks := ?_ }
  · intro g hg
    rw [List.mem_singleton.mp hg, htype]
    decide
  · intro g hg hput
    rw [List.mem_singleton.mp hg, htype] at hput
    cases hput
  · intro n fingerprint' hn
    refine ⟨f, by simp, ?_⟩
    by_contra hne
    have hnone : (openTransaction f c i stamp fingerprint).sequences.lookup n = none := by
      rw [openTransaction, AList.lookup_eq_none, AList.mem_keys]
      simpa using fun h => hne h.symm
    rw [hnone] at hn
    cases hn
  · intro index digest
    simp [openTransaction, hfields]

theorem Progress.begin (hp : Progress key received s) (ha : Arrives offers received d.frame)
    (hkey : d.frame.key = key) (hencode : ∃ encoded, d.frame.encode = .ok encoded)
    (hbound : s.exceedsBound cfg d.frame = false) {c i : Digest}
    (hfields : d.frame.fields = .begin c i) :
    FollowedBy key (received ++ [d.frame]) (s.handle cfg d) := by
  have htype : d.frame.frameType = .BEGIN := Frame.frameType_of_fields hfields
  have hsame : ∀ g ∈ received, ∀ c' i', g.fields = .begin c' i' → g = d.frame ∧ c' = c ∧ i' = i := by
    intro g hg c' i' hgf
    have heq : g = d.frame := ha.script.begin_unique (ha.received_mem g hg) ha.mem
      (Frame.frameType_of_fields hgf) htype
    rw [heq, hfields] at hgf
    cases hgf
    exact ⟨heq, rfl, rfl⟩
  unfold handle
  rw [hfields]
  dsimp only
  subst hkey
  cases hp with
  | fresh hr hc hn =>
      obtain ⟨encoded, hencode⟩ := hencode
      have hroom : ¬ cfg.maxActiveTransactions ≤
          (s.supersede d.frame.transactionId d.frame.generation).activeTransactions := by
        simp only [exceedsBound, hfields, hc, hn, Option.isNone_none, Bool.true_and,
          Bool.or_eq_false_iff, decide_eq_false_iff_not] at hbound
        exact hbound.1
      refine ⟨.ok, ((s.supersede d.frame.transactionId d.frame.generation).store d.frame.key
        (openTransaction d.frame c i d.stamp (sha256 encoded))).rememberGeneration cfg
          d.frame.transactionId d.frame.generation, ?_, rfl, ?_⟩
      · simp only [Receiver.begin, hc, hn]
        rw [if_neg hroom, hencode]
      · rw [hr, List.nil_append]
        refine .opened _ (openTransaction_tracks c i hfields d.stamp (sha256 encoded)) ?_ ?_
        · simpa using hc
        · simp
  | opened t ht hc hn =>
      obtain ⟨g, hg, hgf⟩ := ht.begun
      obtain ⟨rfl, hcontext, hidentity⟩ := hsame g hg _ _ hgf
      refine ⟨.duplicate, s.touch d.frame.key t d.stamp, ?_, rfl, ?_⟩
      · simp only [Receiver.begin, hc, hn, hcontext, hidentity, and_self, ↓reduceIte]
      · exact .opened _ (ht.again hg d.stamp) hc (AList.lookup_insert _)
  | done replica count hb hm hc hn =>
      obtain ⟨g, hg, hgf⟩ := hb
      obtain ⟨-, hcontext, hidentity⟩ := hsame g hg _ _ hgf
      refine ⟨.committed, s, ?_, rfl, Progress.again_done ⟨g, hg, hgf⟩ hm hc hn⟩
      simp only [Receiver.begin, hc, hcontext, hidentity, and_self, ↓reduceIte]

/-- The chunk of a new PUT_CHUNK is entered. -/
theorem Tracks.staged {t : ReceiveTransaction Time} (h : Tracks d.frame.key received t)
    {index : ℕ} {digest : Digest} (hfields : d.frame.fields = .putChunk index digest)
    {encoded : Bytes} (hencode : d.frame.encode = .ok encoded)
    (hnew : t.sequences.lookup d.frame.sequence = none) (hindex : t.chunks.lookup index = none) :
    Tracks d.frame.key (received ++ [d.frame])
      (stagedTransaction cfg d t index digest (sha256 encoded)) := by
  have htype : d.frame.frameType = .PUT_CHUNK := Frame.frameType_of_fields hfields
  refine
    { named := h.named, begun := ?_, plain := ?_, fingerprints := ?_, sequences := ?_,
      chunks := ?_ }
  · obtain ⟨g, hg, hgf⟩ := h.begun
    exact ⟨g, List.mem_append_left _ hg, hgf⟩
  · intro g hg
    rcases List.mem_append.mp hg with hg | hg
    · exact h.plain g hg
    · rw [List.mem_singleton.mp hg, htype]
      decide
  · intro g hg hput
    rcases List.mem_append.mp hg with hg | hg
    · obtain ⟨e, he, hlookup⟩ := h.fingerprints g hg hput
      refine ⟨e, he, ?_⟩
      have hne : g.sequence ≠ d.frame.sequence := by
        intro heq
        rw [heq, hnew] at hlookup
        cases hlookup
      exact (AList.lookup_insert_ne hne).trans hlookup
    · rw [List.mem_singleton.mp hg]
      exact ⟨encoded, hencode, AList.lookup_insert _⟩
  · intro n fingerprint hn
    rcases AList.lookup_insert_some hn with ⟨rfl, -⟩ | ⟨-, hn⟩
    · exact ⟨d.frame, by simp, rfl⟩
    · obtain ⟨g, hg, hs⟩ := h.sequences n fingerprint hn
      exact ⟨g, List.mem_append_left _ hg, hs⟩
  · intro index' digest'
    constructor
    · rintro ⟨payload, hlookup⟩
      rcases AList.lookup_insert_some hlookup with ⟨rfl, hentry⟩ | ⟨-, hlookup⟩
      · refine ⟨d.frame, by simp, ?_⟩
        rw [stagedEntry, Prod.mk.injEq] at hentry
        rw [hentry.1, hfields]
      · obtain ⟨g, hg, hgf⟩ := (h.chunks index' digest').mp ⟨payload, hlookup⟩
        exact ⟨g, List.mem_append_left _ hg, hgf⟩
    · rintro ⟨g, hg, hgf⟩
      rcases List.mem_append.mp hg with hg | hg
      · obtain ⟨payload, hlookup⟩ := (h.chunks index' digest').mpr ⟨g, hg, hgf⟩
        have hne : index' ≠ index := by
          rintro rfl
          rw [hindex] at hlookup
          cases hlookup
        exact ⟨payload, (AList.lookup_insert_ne hne).trans hlookup⟩
      · rw [List.mem_singleton.mp hg, hfields] at hgf
        cases hgf
        exact ⟨_, AList.lookup_insert _⟩

theorem Progress.putChunk (hp : Progress key received s) (ha : Arrives offers received d.frame)
    (hkey : d.frame.key = key) (hencode : ∃ encoded, d.frame.encode = .ok encoded)
    (hbound : s.exceedsBound cfg d.frame = false) (hreturns : d.raises = false)
    (huncommitted : s.committed.lookup key = none) {index : ℕ} {digest : Digest}
    (hfields : d.frame.fields = .putChunk index digest) :
    FollowedBy key (received ++ [d.frame]) (s.handle cfg d) := by
  have htype : d.frame.frameType = .PUT_CHUNK := Frame.frameType_of_fields hfields
  obtain ⟨before, after, he, hbefore, hsequence, hcontinues⟩ := ha.continues
  rw [hfields] at hcontinues
  obtain ⟨⟨⟨b, hb, hbegin⟩, -⟩, hhash, -⟩ := hcontinues
  obtain ⟨encoded, hencode⟩ := hencode
  unfold handle
  rw [hfields]
  dsimp only
  subst hkey
  cases hp with
  | fresh hr hc hn =>
      have hb' := hbefore b hb
      rw [hr] at hb'
      cases hb'
  | opened t ht hc hn =>
      by_cases hagain : d.frame ∈ received
      · obtain ⟨e, he', hseen⟩ := ht.fingerprints d.frame hagain htype
        rw [hencode] at he'
        cases he'
        refine ⟨.duplicate, s.touch d.frame.key t d.stamp, ?_, rfl, ?_⟩
        · simp only [Receiver.putChunk, hn, hencode, hseen, ↓reduceIte]
        · exact .opened _ (ht.again hagain d.stamp) hc (AList.lookup_insert _)
      · have hnew : t.sequences.lookup d.frame.sequence = none := by
          rw [Option.eq_none_iff_forall_ne_some]
          intro fingerprint hsome
          obtain ⟨g, hg, hs⟩ := ht.sequences _ _ hsome
          have heq := ha.script.sequence_unique ha.live (ha.received_mem g hg) ha.mem hs
          exact hagain (heq ▸ hg)
        have hindex : t.chunks.lookup index = none := by
          rw [Option.eq_none_iff_forall_ne_some]
          rintro ⟨digest', payload⟩ hsome
          obtain ⟨g, hg, hgf⟩ := (ht.chunks index digest').mp ⟨payload, hsome⟩
          have heq := ha.script.index_unique (ha.received_mem g hg) ha.mem hgf hfields
          exact hagain (heq ▸ hg)
        simp only [exceedsBound, hfields, hn, hnew, hindex, Option.isNone_none, Bool.true_and,
          Bool.or_eq_false_iff, decide_eq_false_iff_not] at hbound
        obtain ⟨⟨hcontext, hbytes⟩, hchunks⟩ := hbound
        refine ⟨.ok, (s.log (chunkCall cfg d.frame t index digest)).store d.frame.key
          (stagedTransaction cfg d t index digest (sha256 encoded)), ?_, rfl, ?_⟩
        · have hstage : (s.log (chunkCall cfg d.frame t index digest)).stageChunk cfg d.frame t index
              (stagedEntry cfg d.frame digest) (sha256 encoded) d.stamp =
              (.ok .ok, (s.log (chunkCall cfg d.frame t index digest)).store d.frame.key
                (stagedTransaction cfg d t index digest (sha256 encoded))) := by
            unfold stageChunk
            exact if_neg (not_or.mpr ⟨hbytes, hchunks⟩)
          simp only [Receiver.putChunk, hn, hencode, hnew, putNewChunk, hhash, ne_eq,
            not_true_eq_false, hindex, hcontext, hreturns, Bool.and_false, Bool.false_eq_true,
            ↓reduceIte, hstage]
        · exact .opened _ (ht.staged hfields hencode hnew hindex) hc (AList.lookup_insert _)
  | done replica count hb hm hc hn =>
      rw [huncommitted] at hc
      cases hc

/-- The record of the script matches what was received. -/
theorem Tracks.recordMatches {t : ReceiveTransaction Time} (h : Tracks f.key received t)
    (ha : Arrives offers received f) {manifestDigest : Digest} {count : ℕ+}
    (hfields : f.fields = .commit manifestDigest count) :
    sha256 f.payload = manifestDigest ∧ ∃ record, decodeCommitRecord f.payload = .ok record ∧
      recordMatches t record count = true := by
  have htype : f.frameType = .COMMIT := Frame.frameType_of_fields hfields
  obtain ⟨before, after, he, hbefore, -, hcontinues⟩ := ha.continues
  rw [hfields] at hcontinues
  obtain ⟨-, hhash, hdescribes⟩ := hcontinues
  refine ⟨hhash, ?_⟩
  -- Nothing was offered after the COMMIT, so what was received is what it describes.
  have hafter := ha.script.commit_last ha.live he htype
  have hmem : ∀ g, g ∈ received ↔ g ∈ before := by
    intro g
    refine ⟨fun hg => ?_, hbefore g⟩
    have hoffer := ha.received_mem g hg
    rw [he, hafter, List.mem_append, List.mem_singleton] at hoffer
    rcases hoffer with hg' | rfl
    · exact hg'
    · have hplain := h.plain g hg
      rw [htype] at hplain
      exact absurd hplain (by decide)
  have hchunks : ∀ index digest, (∃ payload, t.chunks.lookup index = some (digest, payload)) ↔
      (index, digest) ∈ namedChunks before := by
    intro index digest
    rw [h.chunks index digest, mem_namedChunks]
    simp only [hmem]
  unfold Describes at hdescribes
  split at hdescribes
  · exact hdescribes.elim
  · rename_i record hdecoded
    obtain ⟨htransaction, hgeneration, hcontext, hlength, hnamed, hall⟩ := hdescribes
    refine ⟨record, hdecoded, ?_⟩
    have hdigest : ∀ (index : ℕ) (hlt : index < record.chunkDigests.length),
        ∃ payload, t.chunks.lookup index = some (record.chunkDigests[index], payload) := by
      intro index hlt
      obtain ⟨⟨i, digest⟩, hp, rfl⟩ := List.mem_map.mp (hall index (hlength ▸ hlt))
      have hget := hnamed _ hp
      rw [List.getElem?_eq_getElem hlt, Option.some.injEq] at hget
      rw [hget]
      exact (hchunks i digest).mpr hp
    choose payload hpayload using hdigest
    have hindices : t.chunks.keys.toFinset = Finset.range (count : ℕ) := by
      ext index
      rw [List.mem_toFinset, ← AList.mem_keys, Finset.mem_range, ← hlength]
      constructor
      · intro hindex
        obtain ⟨⟨digest, p⟩, hlookup⟩ :=
          Option.isSome_iff_exists.mp (AList.lookup_isSome.mpr hindex)
        have hget := hnamed _ ((hchunks index digest).mp ⟨p, hlookup⟩)
        exact (List.getElem?_eq_some_iff.mp hget).1
      · intro hlt
        rw [← AList.lookup_isSome, hpayload index hlt]
        rfl
    have hordered : (orderedChunks t count).map Prod.fst = record.chunkDigests := by
      have hentries : orderedChunks t count = (List.range count).map fun index =>
          if h : index < record.chunkDigests.length
          then (record.chunkDigests[index], payload index h) else (zeroDigest, none) := by
        apply orderedChunks_eq
        intro index hlt
        rw [← hlength] at hlt
        rw [dif_pos hlt]
        exact hpayload index hlt
      rw [hentries, List.map_map]
      apply List.ext_getElem
      · rw [List.length_map, List.length_range, hlength]
      · intro index hi hi'
        simp [hi']
    obtain ⟨g, hg, hgf⟩ := h.begun
    have hcontextEq := hcontext g ((hmem g).mp hg) t.contextDigest (by rw [contextOf, hgf]; rfl)
    simp [Receiver.recordMatches, htransaction, hgeneration, hcontextEq, hlength, hindices, hordered,
      h.named.1, h.named.2, Header.key]

theorem Progress.commit (hp : Progress key received s) (ha : Arrives offers received d.frame)
    (hkey : d.frame.key = key) (hbound : s.exceedsBound cfg d.frame = false)
    (hreturns : d.raises = false) {manifestDigest : Digest} {count : ℕ+}
    (hfields : d.frame.fields = .commit manifestDigest count) :
    FollowedBy key (received ++ [d.frame]) (s.handle cfg d) := by
  have htype : d.frame.frameType = .COMMIT := Frame.frameType_of_fields hfields
  obtain ⟨before, after, he, hbefore, -, hcontinues⟩ := ha.continues
  rw [hfields] at hcontinues
  obtain ⟨⟨⟨b, hb, hbegin⟩, -⟩, -, -⟩ := hcontinues
  unfold handle
  rw [hfields]
  dsimp only
  subst hkey
  cases hp with
  | fresh hr hc hn =>
      have hb' := hbefore b hb
      rw [hr] at hb'
      cases hb'
  | opened t ht hc hn =>
      obtain ⟨hhash, record, hdecoded, hmatches⟩ := ht.recordMatches ha hfields
      have hroom : s.committed.size + 1 ≤ cfg.recentCommits := by
        simp only [exceedsBound, hfields, hc, hn, Option.isNone_none, Option.isSome_some,
          Bool.true_and, decide_eq_false_iff_not, Nat.not_lt] at hbound
        exact hbound
      refine ⟨.committed, (s.log (commitCall cfg d.frame t manifestDigest count)).recordCommit cfg
        d.frame.key (committedReplica t manifestDigest count), ?_, rfl, ?_⟩
      · simp only [Receiver.commit, hc, hn, hhash, ne_eq, not_true_eq_false, hdecoded, hmatches,
          Bool.not_true, Bool.false_eq_true, hreturns, Bool.and_false, ↓reduceIte]
      · obtain ⟨g, hg, hgf⟩ := ht.begun
        refine .done (committedReplica t manifestDigest count) count
          ⟨g, List.mem_append_left _ hg, hgf⟩ ⟨d.frame, by simp, hfields⟩ ?_
          (AList.lookup_erase _ _)
        have hsize : (s.committed.insert d.frame.key
            (committedReplica t manifestDigest count)).size ≤ cfg.recentCommits := by
          rw [AList.size_insert_of_none hc]
          exact hroom
        rw [recordCommit_committed, log_committed, AList.newest_of_size_le hsize,
          AList.lookup_insert]
  | done replica count' hb hm hc hn =>
      obtain ⟨g, hg, hgf⟩ := hm
      have heq := ha.script.commit_unique (ha.received_mem g hg) ha.mem
        (Frame.frameType_of_fields hgf) htype
      have hmanifest : replica.manifestDigest = manifestDigest := by
        rw [heq, hfields] at hgf
        cases hgf
        rfl
      refine ⟨.committed, s, ?_, rfl, Progress.again_done hb ⟨g, hg, hgf⟩ hc hn⟩
      simp only [Receiver.commit, hc, hmanifest, ↓reduceIte]

/-- A frame of the script is followed, unless it is a chunk of a committed transaction. -/
theorem Progress.handle (hp : Progress key received s) (ha : Arrives offers received d.frame)
    (hkey : d.frame.key = key) (hencode : ∃ encoded, d.frame.encode = .ok encoded)
    (hbound : s.exceedsBound cfg d.frame = false) (hreturns : d.raises = false)
    (hchunk : s.committed.lookup key ≠ none → d.frame.frameType ≠ .PUT_CHUNK) :
    FollowedBy key (received ++ [d.frame]) (s.handle cfg d) := by
  cases hfields : d.frame.fields with
  | begin c i => exact hp.begin ha hkey hencode hbound hfields
  | putChunk index digest =>
      refine hp.putChunk ha hkey hencode hbound hreturns ?_ hfields
      by_contra hcommitted
      exact hchunk hcommitted (Frame.frameType_of_fields hfields)
  | commit manifest count => exact hp.commit ha hkey hbound hreturns hfields
  | abort reason => exact absurd (Frame.frameType_of_fields hfields) (ha.live _ ha.mem)
  | ack n status =>
      obtain ⟨before, after, -, -, -, hcontinues⟩ := ha.continues
      rw [hfields] at hcontinues
      exact hcontinues.elim
  | credit b n =>
      obtain ⟨before, after, -, -, -, hcontinues⟩ := ha.continues
      rw [hfields] at hcontinues
      exact hcontinues.elim

end Receiver
end SparkCache.Replication
