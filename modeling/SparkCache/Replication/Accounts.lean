import SparkCache.Replication.ReceiverSafety
import SparkCache.Replication.Progress

/-!
# Where the receiver's tables come from

Open transactions and commit records are traced to the frames that made them,
and a frame of one transaction is shown to leave every other one alone unless
it begins a newer generation.
-/
namespace SparkCache.Replication

/-- An ACK that makes the sender give its transaction up. -/
def Frame.refuses (f : Frame) : Bool :=
  match f.fields with
  | .ack _ status => status.refusal
  | _ => false

namespace Receiver
variable {Time : Type*} {cfg : ReceiverConfig Time} {s s' : Receiver Time} {d : Delivery Time}
  {key : Key}

/-- Open transactions and commit records come from frames of the list. -/
structure Accounts (offers : List Frame) (s : Receiver Time) : Prop where
  begun : ∀ key t, s.active.lookup key = some t → s.committed.lookup key = none ∧
    ∃ f ∈ offers, f.key = key ∧ f.fields = .begin t.contextDigest t.identityDigest
  receipts : ∀ key replica, s.committed.lookup key = some replica →
    (∃ f ∈ offers, f.key = key ∧
      f.fields = .begin replica.contextDigest replica.identityDigest) ∧
    ∃ f ∈ offers, f.key = key ∧ ∃ count, f.fields = .commit replica.manifestDigest count

theorem Accounts.mono {offers offers' : List Frame} (h : Accounts offers s)
    (hsub : ∀ f ∈ offers, f ∈ offers') : Accounts offers' s := by
  constructor
  · intro key t ht
    obtain ⟨hc, f, hf, hfields⟩ := h.begun key t ht
    exact ⟨hc, f, hsub f hf, hfields⟩
  · intro key replica hr
    obtain ⟨⟨f, hf, hfields⟩, g, hg, hgfields⟩ := h.receipts key replica hr
    exact ⟨⟨f, hsub f hf, hfields⟩, g, hsub g hg, hgfields⟩

/-- Fewer open transactions need fewer accounts. -/
theorem Accounts.of_active {offers : List Frame} (h : Accounts offers s)
    (ha : ∀ key t, s'.active.lookup key = some t → ∃ t', s.active.lookup key = some t' ∧
      t'.contextDigest = t.contextDigest ∧ t'.identityDigest = t.identityDigest)
    (hc : s'.committed = s.committed) : Accounts offers s' := by
  constructor
  · intro key t ht
    obtain ⟨t', ht', hcontext, hidentity⟩ := ha key t ht
    rw [hc, ← hcontext, ← hidentity]
    exact h.begun key t' ht'
  · intro key replica hr
    rw [hc] at hr
    exact h.receipts key replica hr

theorem Accounts.expireInactive {offers : List Frame} (h : Accounts offers s) (now : Time) :
    Accounts offers (s.expireInactive cfg now) :=
  h.of_active (fun _ t ht => ⟨t, AList.lookup_filter_some ht, rfl, rfl⟩) rfl

theorem Accounts.effect {offers : List Frame} (h : Accounts offers s)
    (hd : d.frame.frameType ≠ .ABORT → d.frame ∈ offers) (he : Effect cfg s d s') :
    Accounts offers s' := by
  have herase : ∀ {r : Receiver Time}, r.active = s.active.erase d.frame.key →
      r.committed = s.committed → Accounts offers r := by
    intro r hra hrc
    apply h.of_active _ hrc
    intro key t ht
    rw [hra] at ht
    exact ⟨t, (AList.lookup_erase_some ht).2, rfl, rfl⟩
  cases he with
  | unchanged => exact h
  | discarded => exact herase rfl rfl
  | superseded c i hf huncommitted hnew hfull =>
      exact h.of_active (fun _ t ht => ⟨t, supersede_lookup ht, rfl, rfl⟩) (by simp)
  | touched t ht =>
      refine h.of_active (fun key t' ht' => ?_) rfl
      rcases AList.lookup_insert_some ht' with ⟨rfl, rfl⟩ | ⟨-, ht'⟩
      · exact ⟨t, ht, rfl, rfl⟩
      · exact ⟨t', ht', rfl, rfl⟩
  | opened c i encoded hf huncommitted hnew hroom hencode =>
      have hmem := hd (by simp [Frame.frameType, hf, Fields.frameType])
      constructor
      · intro key t ht
        rw [rememberGeneration_active, store_active] at ht
        rw [rememberGeneration_committed, store_committed, supersede_committed]
        rcases AList.lookup_insert_some ht with ⟨rfl, rfl⟩ | ⟨-, ht⟩
        · exact ⟨huncommitted, d.frame, hmem, rfl, hf⟩
        · exact h.begun key t (supersede_lookup ht)
      · intro key replica hr
        rw [rememberGeneration_committed, store_committed, supersede_committed] at hr
        exact h.receipts key replica hr
  | staged t index digest fp hput hbytes hchunks =>
      refine h.of_active (fun key t' ht' => ?_) rfl
      rcases AList.lookup_insert_some ht' with ⟨rfl, rfl⟩ | ⟨-, ht'⟩
      · exact ⟨t, hput.active, rfl, rfl⟩
      · exact ⟨t', ht', rfl, rfl⟩
  | unstaged t index digest hput => exact herase rfl rfl
  | committed t manifest count record hcommit =>
      have hmem := hd (by simp [Frame.frameType, hcommit.fields_eq, Fields.frameType])
      constructor
      · intro key t' ht'
        obtain ⟨hne, ht'⟩ := AList.lookup_erase_some ht'
        obtain ⟨hc, hbegun⟩ := h.begun key t' ht'
        refine ⟨?_, hbegun⟩
        rw [Option.eq_none_iff_forall_ne_some]
        intro replica hr
        have hr' := AList.lookup_newest_some hr
        rw [AList.lookup_insert_ne hne, log_committed, hc] at hr'
        cases hr'
      · intro key replica hr
        rcases AList.lookup_insert_some (AList.lookup_newest_some hr) with ⟨rfl, rfl⟩ | ⟨-, hr⟩
        · exact ⟨(h.begun _ t hcommit.active).2, d.frame, hmem, rfl, count, hcommit.fields_eq⟩
        · exact h.receipts key replica hr
  | unpublished t manifest count record hcommit => exact herase rfl rfl

theorem Accounts.receive {offers : List Frame} (h : Accounts offers s) (d : Delivery Time)
    (hd : d.frame.frameType ≠ .ABORT → d.frame ∈ offers) :
    Accounts offers (s.receive cfg d).2 := by
  obtain ⟨s', heffect, hs⟩ := s.receive_effect cfg d
  have haccounts := (h.expireInactive d.now).effect hd heffect
  rcases hs with hs | hs
  · rw [hs]
    exact haccounts
  · rw [hs]
    exact ⟨haccounts.begun, haccounts.receipts⟩

/-! ## One delivery -/

/-- The answer of a handler to a frame that is not stale. -/
theorem receive_handled {status : AckStatus} (hcurrent : s.checkGeneration d.frame = true)
    (hhandle : (s.expireInactive cfg d.now).handle cfg d = some (.ok status, s')) :
    s.receive cfg d = (.ok (s'.ackFrame d.frame status, s'.nextSequence.creditFrame cfg d.frame),
      s'.nextSequence.nextSequence) := by
  have hcurrent' : (s.expireInactive cfg d.now).checkGeneration d.frame = true := hcurrent
  unfold Receiver.receive
  simp only [hhandle, hcurrent', Bool.not_true, Bool.false_eq_true, ↓reduceIte]
  rfl

/-- A stale frame leaves the tables to the expiry. -/
theorem receive_stale (cfg : ReceiverConfig Time)
    (hstale : s.checkGeneration d.frame = false) :
    (s.receive cfg d).2 = s.expireInactive cfg d.now ∨
      (s.receive cfg d).2 = (s.expireInactive cfg d.now).nextSequence.nextSequence := by
  have hstale' : (s.expireInactive cfg d.now).checkGeneration d.frame = false := hstale
  unfold Receiver.receive
  dsimp only
  split
  · exact Or.inl rfl
  · rw [hstale']
    exact Or.inr rfl

/-- The ACK is about the delivered frame's transaction, and the CREDIT refuses nothing. -/
theorem receive_answers {ack credit : Frame} (h : (s.receive cfg d).1 = .ok (ack, credit)) :
    ack.key = d.frame.key ∧ credit.refuses = false := by
  unfold Receiver.receive at h
  dsimp only at h
  split at h
  · cases h
  · split at h
    · cases h
      exact ⟨rfl, rfl⟩
    · split at h
      · cases h
      · cases h
        exact ⟨rfl, rfl⟩

/-- The delivered frame encodes and exceeds no bound. -/
structure Bounds (cfg : ReceiverConfig Time) (s : Receiver Time) (d : Delivery Time) : Prop where
  within : s.exceedsBound cfg d.frame = false
  encodes : ∃ encoded, d.frame.encode = .ok encoded

theorem recordCommit_lookup (hbound : s.exceedsBound cfg d.frame = false)
    {t : ReceiveTransaction Time} {manifestDigest : Digest} {count : ℕ+} {record : CommitRecord}
    (h : Commits s d t manifestDigest count record) (call : Option Call)
    (replica : CommittedReplica) (key : Key) :
    ((s.log call).recordCommit cfg d.frame.key replica).committed.lookup key =
      (s.committed.insert d.frame.key replica).lookup key := by
  have hsize : (s.committed.insert d.frame.key replica).size ≤ cfg.recentCommits := by
    rw [AList.size_insert_of_none h.uncommitted]
    simpa [exceedsBound, h.fields_eq, h.uncommitted, h.active] using hbound
  rw [recordCommit_committed, log_committed, AList.newest_of_size_le hsize]

/-- Within the bounds no commit record is lost. -/
theorem Effect.keeps_receipts (he : Effect cfg s d s')
    (hbound : s.exceedsBound cfg d.frame = false) {replica : CommittedReplica}
    (hr : s.committed.lookup key = some replica) : s'.committed.lookup key = some replica := by
  cases he with
  | committed t manifest count record hcommit =>
      have hne : key ≠ d.frame.key := by
        rintro rfl
        rw [hcommit.uncommitted] at hr
        cases hr
      rw [recordCommit_lookup hbound hcommit, AList.lookup_insert_ne hne]
      exact hr
  | superseded c i hf huncommitted hnew hfull =>
      rw [supersede_committed]
      exact hr
  | opened c i encoded hf huncommitted hnew hroom hencode =>
      rw [rememberGeneration_committed, store_committed, supersede_committed]
      exact hr
  | _ => exact hr

/-- A commit record is made by a COMMIT of its transaction. -/
theorem Effect.new_receipt (he : Effect cfg s d s') (hnone : s.committed.lookup key = none)
    (hne : d.frame.key = key → d.frame.frameType ≠ .COMMIT) :
    s'.committed.lookup key = none := by
  cases he with
  | committed t manifest count record hcommit =>
      have hkey : key ≠ d.frame.key := by
        rintro rfl
        exact hne rfl (by simp [Frame.frameType, hcommit.fields_eq, Fields.frameType])
      rw [Option.eq_none_iff_forall_ne_some]
      intro replica hr
      have hr' := AList.lookup_newest_some hr
      rw [AList.lookup_insert_ne hkey, log_committed, hnone] at hr'
      cases hr'
  | superseded c i hf huncommitted hnew hfull =>
      rw [supersede_committed]
      exact hnone
  | opened c i encoded hf huncommitted hnew hroom hencode =>
      rw [rememberGeneration_committed, store_committed, supersede_committed]
      exact hnone
  | _ => exact hnone

theorem rememberGeneration_latestGeneration {s : Receiver Time} {transactionId : TransactionId}
    {generation : ℕ}
    (h : (s.latestGeneration.insert transactionId generation).size ≤ cfg.recentGenerations) :
    (s.rememberGeneration cfg transactionId generation).latestGeneration =
      s.latestGeneration.insert transactionId generation := by
  unfold rememberGeneration
  dsimp only
  rw [Nat.sub_eq_zero_of_le h]
  rfl

/-- Within the bounds a frame of another transaction leaves this one alone, unless it begins
a newer generation. -/
theorem Effect.other (he : Effect cfg s d s') (hb : Bounds cfg s d) (hne : d.frame.key ≠ key) :
    (s'.active.lookup key = s.active.lookup key ∧
        s'.latestGeneration.lookup key.1 = s.latestGeneration.lookup key.1) ∨
      (key.1 = d.frame.transactionId ∧
        s'.latestGeneration.lookup key.1 = some d.frame.generation ∧
        (s'.active.lookup key = s.active.lookup key ∨
          key.2 < d.frame.generation ∧
            ∀ t, s'.active.lookup key = some t → s.active.lookup key = some t)) := by
  have hne' : key ≠ d.frame.key := fun h => hne h.symm
  cases he with
  | unchanged => exact Or.inl ⟨rfl, rfl⟩
  | discarded => exact Or.inl ⟨AList.lookup_erase_ne hne', rfl⟩
  | superseded c i hf huncommitted hnew hfull =>
      rcases hfull with hfull | hfull
      · have hbound := hb.within
        simp only [exceedsBound, hf, huncommitted, hnew, Option.isNone_none, Bool.true_and,
          Bool.or_eq_false_iff, decide_eq_false_iff_not] at hbound
        exact absurd hfull hbound.1
      · obtain ⟨encoded, hencode⟩ := hb.encodes
        exact absurd hencode (hfull encoded)
  | touched t ht => exact Or.inl ⟨AList.lookup_insert_ne hne', rfl⟩
  | opened c i encoded hf huncommitted hnew hroom hencode =>
      have hbound := hb.within
      simp only [exceedsBound, hf, huncommitted, hnew, Option.isNone_none, Bool.true_and,
        Bool.or_eq_false_iff, decide_eq_false_iff_not, Nat.not_lt] at hbound
      have hactive : ∀ t, (s.supersede d.frame.transactionId
          d.frame.generation).active.lookup key = some t → s.active.lookup key = some t :=
        fun t ht => supersede_lookup ht
      rw [rememberGeneration_latestGeneration (by simpa using hbound.2), rememberGeneration_active,
        store_active, AList.lookup_insert_ne hne', store_latestGeneration,
        supersede_latestGeneration]
      by_cases hname : key.1 = d.frame.transactionId
      · refine Or.inr ⟨hname, by rw [hname, AList.lookup_insert], ?_⟩
        rcases s.supersede_eq d.frame.transactionId d.frame.generation with he |
          ⟨latest, -, hlt, he⟩
        · exact Or.inl (by rw [he])
        · by_cases hgeneration : key.2 = latest
          · exact Or.inr ⟨by rw [hgeneration]; exact hlt, hactive⟩
          · left
            rw [he, discard_active, AList.lookup_erase_ne]
            rintro rfl
            exact hgeneration rfl
      · exact Or.inl ⟨s.supersede_lookup_ne _ hname, AList.lookup_insert_ne hname⟩
  | staged t index digest fp hput hbytes hchunks =>
      exact Or.inl ⟨AList.lookup_insert_ne hne', rfl⟩
  | unstaged t index digest hput => exact Or.inl ⟨AList.lookup_erase_ne hne', rfl⟩
  | committed t manifest count record hcommit =>
      exact Or.inl ⟨AList.lookup_erase_ne hne', rfl⟩
  | unpublished t manifest count record hcommit =>
      exact Or.inl ⟨AList.lookup_erase_ne hne', rfl⟩

/-- A frame leaves no newer generation of its own transaction behind. -/
theorem Effect.own (he : Effect cfg s d s') (hbound : s.exceedsBound cfg d.frame = false)
    (h : ∀ latest, s.latestGeneration.lookup d.frame.transactionId = some latest →
      latest ≤ d.frame.generation) {latest : ℕ}
    (hlatest : s'.latestGeneration.lookup d.frame.transactionId = some latest) :
    latest ≤ d.frame.generation := by
  cases he with
  | superseded c i hf huncommitted hnew hfull =>
      rw [supersede_latestGeneration] at hlatest
      exact h latest hlatest
  | opened c i encoded hf huncommitted hnew hroom hencode =>
      simp only [exceedsBound, hf, huncommitted, hnew, Option.isNone_none, Bool.true_and,
        Bool.or_eq_false_iff, decide_eq_false_iff_not, Nat.not_lt] at hbound
      rw [rememberGeneration_latestGeneration (by simpa using hbound.2), AList.lookup_insert] at hlatest
      exact (Option.some.inj hlatest).ge
  | _ => exact h latest hlatest

/-- The tables after a delivery that meets no TTL: one effect, unless the frame is stale. -/
theorem receive_unexpired (cfg : ReceiverConfig Time) (d : Delivery Time)
    (hexpire : s.expireInactive cfg d.now = s) :
    ∃ s', (s' = s ∨ s.checkGeneration d.frame = true ∧ Effect cfg s d s') ∧
      ((s.receive cfg d).2 = s' ∨ (s.receive cfg d).2 = s'.nextSequence.nextSequence) := by
  cases hcurrent : s.checkGeneration d.frame with
  | false =>
      have hstale := receive_stale cfg hcurrent
      rw [hexpire] at hstale
      exact ⟨s, Or.inl rfl, hstale⟩
  | true =>
      obtain ⟨s', heffect, hs⟩ := s.receive_effect cfg d
      rw [hexpire] at heffect
      exact ⟨s', Or.inr ⟨rfl, heffect⟩, hs⟩

end Receiver
end SparkCache.Replication
