import Mathlib.Algebra.BigOperators.Group.Finset.Basic
import SparkCache.Replication.Link
import SparkCache.Replication.ReceiverSafety

/-!
# Credits and staging

A CREDIT reports what was free when it was made, so frames that were already on
their way are not in it. The receiver cannot run over its staging bounds as
long as every PUT_CHUNK fits, with the PUT_CHUNKs put on the channel after the
frame that the newest applied CREDIT answers, into that CREDIT. The invariant
compares sets of staged chunks: what is staged now was staged when a CREDIT was
made or arrived since.
-/
namespace SparkCache.Replication

/-- A chunk held in memory: its transaction, index and payload. -/
abbrev StagedChunk := Key × ℕ × Bytes

def bytesOf (chunks : Finset StagedChunk) : ℕ := ∑ x ∈ chunks, x.2.2.length

def chunkOf (f : Frame) : Option StagedChunk :=
  match f.fields with
  | .putChunk index _ => some (f.key, index, f.payload)
  | _ => none

/-- The chunks that frames carry, each once. -/
def putChunks (frames : List Frame) : Finset StagedChunk := (frames.filterMap chunkOf).toFinset

theorem putChunks_append (a b : List Frame) : putChunks (a ++ b) = putChunks a ∪ putChunks b := by
  simp [putChunks, List.filterMap_append]

@[simp] theorem putChunks_nil : putChunks [] = ∅ := rfl

theorem mem_putChunks {x : StagedChunk} {frames : List Frame} :
    x ∈ putChunks frames ↔ ∃ f ∈ frames, chunkOf f = some x := by
  simp [putChunks]

theorem bytesOf_mono {a b : Finset StagedChunk} (h : a ⊆ b) : bytesOf a ≤ bytesOf b :=
  Finset.sum_le_sum_of_subset h

theorem bytesOf_union_le (a b : Finset StagedChunk) : bytesOf (a ∪ b) ≤ bytesOf a + bytesOf b := by
  have h : (∑ x ∈ a ∪ b, x.2.2.length) + ∑ x ∈ a ∩ b, x.2.2.length =
      (∑ x ∈ a, x.2.2.length) + ∑ x ∈ b, x.2.2.length := Finset.sum_union_inter
  unfold bytesOf
  omega

namespace Receiver
variable {Time : Type*}

def stagedList (s : Receiver Time) : List StagedChunk :=
  s.active.entries.flatMap fun e =>
    e.2.chunks.entries.filterMap fun c => c.2.2.map fun payload => (e.1, c.1, payload)

/-- The chunks that the receiver holds in memory. -/
def staged (s : Receiver Time) : Finset StagedChunk := s.stagedList.toFinset

theorem mem_staged {s : Receiver Time} {key : Key} {index : ℕ} {payload : Bytes} :
    (key, index, payload) ∈ s.staged ↔ ∃ t, s.active.lookup key = some t ∧
      ∃ digest, t.chunks.lookup index = some (digest, some payload) := by
  simp only [staged, List.mem_toFinset, stagedList, List.mem_flatMap, List.mem_filterMap,
    Option.map_eq_some_iff, Prod.mk.injEq, AList.lookup_eq_some_iff]
  constructor
  · rintro ⟨⟨k, t⟩, ht, ⟨i, digest, p⟩, hc, payload', hp, rfl, rfl, rfl⟩
    exact ⟨t, ht, digest, by rwa [← hp]⟩
  · rintro ⟨t, ht, digest, hc⟩
    exact ⟨⟨key, t⟩, ht, ⟨index, digest, some payload⟩, hc, payload, rfl, rfl, rfl, rfl⟩

theorem stagedList_nodup (s : Receiver Time) : s.stagedList.Nodup := by
  rw [stagedList, List.nodup_flatMap]
  constructor
  · intro e he
    apply (List.nodupKeys_iff_pairwise.mp e.2.chunks.nodupKeys).filterMap
    intro c c' hne x hx x' hx' heq
    obtain ⟨p, -, rfl⟩ := Option.map_eq_some_iff.mp hx
    obtain ⟨p', -, rfl⟩ := Option.map_eq_some_iff.mp hx'
    simp only [Prod.mk.injEq] at heq
    exact hne heq.2.1
  · apply (List.nodupKeys_iff_pairwise.mp s.active.nodupKeys).imp
    intro e e' hne x hx hx'
    obtain ⟨c, -, hc⟩ := List.mem_filterMap.mp hx
    obtain ⟨c', -, hc'⟩ := List.mem_filterMap.mp hx'
    obtain ⟨p, -, rfl⟩ := Option.map_eq_some_iff.mp hc
    obtain ⟨p', -, heq⟩ := Option.map_eq_some_iff.mp hc'
    simp only [Prod.mk.injEq] at heq
    exact hne heq.1.symm

theorem stagedBytes_eq_sum (key : Key) (t : ReceiveTransaction Time) :
    ((t.chunks.entries.filterMap fun c =>
      c.2.2.map fun payload => ((key, c.1, payload) : StagedChunk)).map
        fun x => x.2.2.length).sum = t.stagedBytes := by
  unfold ReceiveTransaction.stagedBytes AList.total
  induction t.chunks.entries with
  | nil => rfl
  | cons c rest ih =>
      obtain ⟨i, digest, payload⟩ := c
      cases payload with
      | none => simpa [ChunkEntry.stagedBytes] using ih
      | some p => simpa [ChunkEntry.stagedBytes] using ih

theorem stagedChunks_eq_length (key : Key) (t : ReceiveTransaction Time) :
    (t.chunks.entries.filterMap fun c =>
      c.2.2.map fun payload => ((key, c.1, payload) : StagedChunk)).length = t.stagedChunks := by
  unfold ReceiveTransaction.stagedChunks AList.total
  induction t.chunks.entries with
  | nil => rfl
  | cons c rest ih =>
      obtain ⟨i, digest, payload⟩ := c
      cases payload with
      | none => simpa [ChunkEntry.stagedChunks] using ih
      | some p =>
          simp only [List.filterMap_cons, Option.map_some, List.length_cons, ih,
            List.map_cons, List.sum_cons, ChunkEntry.stagedChunks, Option.isSome_some, ↓reduceIte]
          omega

theorem bytesOf_staged (s : Receiver Time) : bytesOf s.staged = s.stagedBytes := by
  rw [bytesOf, staged, List.sum_toFinset _ s.stagedList_nodup]
  unfold stagedList stagedBytes AList.total
  induction s.active.entries with
  | nil => rfl
  | cons e rest ih =>
      rw [List.flatMap_cons, List.map_append, List.sum_append, ih, stagedBytes_eq_sum,
        List.map_cons, List.sum_cons]

theorem card_staged (s : Receiver Time) : s.staged.card = s.stagedChunks := by
  rw [staged, List.toFinset_card_of_nodup s.stagedList_nodup]
  unfold stagedList stagedChunks AList.total
  induction s.active.entries with
  | nil => rfl
  | cons e rest ih =>
      rw [List.flatMap_cons, List.length_append, ih, stagedChunks_eq_length, List.map_cons,
        List.sum_cons]

/-- A smaller table holds fewer chunks. -/
theorem staged_subset {s s' : Receiver Time}
    (h : ∀ key t, s'.active.lookup key = some t → s.active.lookup key = some t) :
    s'.staged ⊆ s.staged := by
  rintro ⟨key, index, payload⟩ hx
  obtain ⟨t, ht, hc⟩ := mem_staged.mp hx
  exact mem_staged.mpr ⟨t, h key t ht, hc⟩

variable {cfg : ReceiverConfig Time}

/-- A delivery stages at most the chunk that its frame carries. -/
theorem Effect.staged_subset {s s' : Receiver Time} {d : Delivery Time}
    (he : Effect cfg s d s') : s'.staged ⊆ s.staged ∪ putChunks [d.frame] := by
  have herase : ∀ {r : Receiver Time}, r.active = s.active.erase d.frame.key →
      r.staged ⊆ s.staged ∪ putChunks [d.frame] := by
    intro r hr
    apply Finset.Subset.trans _ Finset.subset_union_left
    apply Receiver.staged_subset
    intro key t ht
    rw [hr] at ht
    exact (AList.lookup_erase_some ht).2
  cases he with
  | unchanged => exact Finset.subset_union_left
  | discarded => exact herase rfl
  | superseded c i hf huncommitted hnew hfull =>
      exact (Receiver.staged_subset fun key t ht => supersede_lookup ht).trans
        Finset.subset_union_left
  | touched t ht =>
      rintro ⟨key, index, payload⟩ hx
      obtain ⟨t', ht', hc⟩ := mem_staged.mp hx
      apply Finset.mem_union_left
      rcases AList.lookup_insert_some ht' with ⟨rfl, rfl⟩ | ⟨-, ht'⟩
      · exact mem_staged.mpr ⟨t, ht, hc⟩
      · exact mem_staged.mpr ⟨t', ht', hc⟩
  | opened c i encoded hf huncommitted hnew hroom hencode =>
      rintro ⟨key, index, payload⟩ hx
      obtain ⟨t', ht', hc⟩ := mem_staged.mp hx
      rw [rememberGeneration_active, store_active] at ht'
      apply Finset.mem_union_left
      rcases AList.lookup_insert_some ht' with ⟨rfl, rfl⟩ | ⟨-, ht'⟩
      · obtain ⟨digest, hc⟩ := hc
        simp [openTransaction] at hc
      · exact mem_staged.mpr ⟨t', supersede_lookup ht', hc⟩
  | staged t index digest fp hput hbytes hchunks =>
      rintro ⟨key, index', payload⟩ hx
      obtain ⟨t', ht', digest', hc⟩ := mem_staged.mp hx
      rcases AList.lookup_insert_some ht' with ⟨rfl, rfl⟩ | ⟨-, ht'⟩
      · rcases AList.lookup_insert_some hc with ⟨rfl, hentry⟩ | ⟨-, hc⟩
        · apply Finset.mem_union_right
          rw [mem_putChunks]
          refine ⟨d.frame, by simp, ?_⟩
          simp only [stagedEntry, Prod.mk.injEq] at hentry
          split_ifs at hentry
          · exact absurd hentry.2 (by simp)
          · rw [chunkOf, hput.fields_eq, Option.some.inj hentry.2]
        · exact Finset.mem_union_left _ (mem_staged.mpr ⟨t, hput.active, digest', hc⟩)
      · exact Finset.mem_union_left _ (mem_staged.mpr ⟨t', ht', digest', hc⟩)
  | unstaged t index digest hput => exact herase rfl
  | committed t manifest count record hcommit => exact herase rfl
  | unpublished t manifest count record hcommit => exact herase rfl

theorem expireInactive_staged_subset (s : Receiver Time) (now : Time) :
    (s.expireInactive cfg now).staged ⊆ s.staged :=
  Receiver.staged_subset fun _ _ ht => AList.lookup_filter_some ht

theorem receive_staged_subset (cfg : ReceiverConfig Time) (s : Receiver Time) (d : Delivery Time) :
    (s.receive cfg d).2.staged ⊆ s.staged ∪ putChunks [d.frame] := by
  obtain ⟨s', heffect, hs⟩ := s.receive_effect cfg d
  have hsub : s'.staged ⊆ s.staged ∪ putChunks [d.frame] :=
    heffect.staged_subset.trans
      (Finset.union_subset_union_left (s.expireInactive_staged_subset d.now))
  rcases hs with hs | hs
  · rw [hs]
    exact hsub
  · rw [hs]
    exact hsub

/-- Answers are one ACK and one CREDIT of what is free in the state left behind. -/
theorem receive_replies {s : Receiver Time} {d : Delivery Time} {ack credit : Frame}
    (h : (s.receive cfg d).1 = .ok (ack, credit)) :
    ack.frameType = .ACK ∧ credit.fields =
      .credit (cfg.maxStagedBytes - (s.receive cfg d).2.stagedBytes)
        (cfg.maxStagedChunks - (s.receive cfg d).2.stagedChunks) := by
  unfold receive at h ⊢
  dsimp only at h ⊢
  split at h
  · cases h
  · rename_i handled hhandle
    split at h
    · rename_i hstale
      cases h
      rw [if_pos hstale]
      exact ⟨rfl, rfl⟩
    · rename_i hstale
      rw [if_neg hstale]
      split at h
      · cases h
      · cases h
        exact ⟨rfl, rfl⟩

end Receiver

namespace Link
variable {Time : Type*}

section Invariant
variable (cfg : LinkConfig Time)

/-- The chunks fit into the CREDIT. -/
def Within (chunks : Finset StagedChunk) (r : Reply) : Prop :=
  match r.frame.fields with
  | .credit availableBytes availableFrames =>
      bytesOf chunks ≤ availableBytes ∧ chunks.card ≤ availableFrames
  | _ => False

instance (chunks : Finset StagedChunk) (r : Reply) : Decidable (Within chunks r) := by
  unfold Within
  split <;> infer_instance

/-- The frame fits into the newest applied CREDIT together with the PUT_CHUNKs put on the
channel after the frame which that CREDIT answers. -/
def FitsCredit (l : Link Time) (f : Frame) : Prop :=
  ∀ r ∈ l.basis, Within (putChunks (l.sent.drop r.answered ++ [f])) r

/-- The sender's window lets a PUT_CHUNK through. -/
def Admits (s : Sender) (f : Frame) : Prop :=
  f.frameKey ∈ s.inflight ∨ (1 ≤ s.availableFrames ∧ f.payload.length ≤ s.availableBytes)

/-- Every PUT_CHUNK that the action puts on the channel fits. -/
def Fits (l : Link Time) : Action Time → Prop
  | .offer f => f.frameType = .PUT_CHUNK → Admits l.sender f → l.FitsCredit f
  | .retransmit index => ∀ f ∈ (l.sender.retransmit[index]?.map decodeWire).getD [],
      f.frameType = .PUT_CHUNK → l.FitsCredit f
  | _ => True

instance (l : Link Time) (f : Frame) : Decidable (l.FitsCredit f) :=
  inferInstanceAs (Decidable (∀ r ∈ l.basis, _))

instance (s : Sender) (f : Frame) : Decidable (Admits s f) :=
  inferInstanceAs (Decidable (_ ∨ _))

instance (l : Link Time) : (a : Action Time) → Decidable (l.Fits a)
  | .offer f =>
      inferInstanceAs (Decidable (f.frameType = .PUT_CHUNK → Admits l.sender f → l.FitsCredit f))
  | .retransmit _ => inferInstanceAs (Decidable (∀ f ∈ _, _))
  | .sendAborts | .deliver .. | .expire _ | .reply | .lose => isTrue trivial

/-- What is staged now was staged when the CREDIT was made, within what it left out, or
arrived since. -/
def Covers (l : Link Time) (r : Reply) : Prop :=
  r.answered ≤ l.arrived ∧
    ∃ availableBytes availableFrames, r.frame.fields = .credit availableBytes availableFrames ∧
      ∃ before : Finset StagedChunk,
        bytesOf before + availableBytes ≤ cfg.receiver.maxStagedBytes ∧
        before.card + availableFrames ≤ cfg.receiver.maxStagedChunks ∧
        l.receiver.staged ⊆ before ∪ putChunks ((l.sent.take l.arrived).drop r.answered)

/-- Every PUT_CHUNK on its way is paid for by a CREDIT that covers the receiver. -/
structure Funded (l : Link Time) : Prop where
  arrived_le : l.arrived ≤ l.sent.length
  bounded : Receiver.Bounded cfg.receiver l.receiver
  replies : ∀ r ∈ l.replies, r.frame.frameType = .CREDIT → Covers cfg l r
  basis : ∀ r, l.basis = some r → Covers cfg l r
  unarmed : l.basis = none → l.sender.availableFrames = 0 ∧
    l.sender.lastCreditSequence = -1 ∧ putChunks l.sent = ∅
  held : ∀ key encoded, l.sender.inflight.lookup key = some encoded →
    ∃ f ∈ l.sent, f.encode = .ok encoded
  aborts : ∀ key encoded, l.sender.bestEffortAborts.lookup key = some encoded →
    ∃ k, (Sender.abortFrame k).encode = .ok encoded
  certified : ∀ i f, l.arrived ≤ i → l.sent[i]? = some f → f.frameType = .PUT_CHUNK →
    ∃ r, Covers cfg l r ∧ Within (putChunks ((l.sent.take (i + 1)).drop r.answered)) r

end Invariant

variable {cfg : LinkConfig Time}

theorem Within.credit {chunks : Finset StagedChunk} {r : Reply} {b n : ℕ}
    (hf : r.frame.fields = .credit b n) (h : Within chunks r) :
    bytesOf chunks ≤ b ∧ chunks.card ≤ n := by
  rw [Within, hf] at h
  exact h

theorem chunkOf_eq_none {f : Frame} (h : f.frameType ≠ .PUT_CHUNK) : chunkOf f = none := by
  unfold chunkOf
  split
  · rename_i index digest hf
    exact absurd (by rw [Frame.frameType, hf]; rfl) h
  · rfl

theorem chunkOf_eq_some {f : Frame} (h : f.frameType = .PUT_CHUNK) :
    ∃ index, chunkOf f = some (f.key, index, f.payload) := by
  unfold chunkOf
  split
  · rename_i index digest hf
    exact ⟨index, rfl⟩
  · rename_i hf
    unfold Frame.frameType at h
    cases hfields : f.fields with
    | putChunk index digest => exact absurd hfields (hf index digest)
    | _ => rw [hfields] at h; cases h

theorem Covers.mono {l l' : Link Time} {r : Reply} (h : Covers cfg l r)
    (harrived : l.arrived ≤ l.sent.length) (hreceiver : l'.receiver.staged ⊆ l.receiver.staged)
    (ha : l'.arrived = l.arrived) (hsent : ∃ more, l'.sent = l.sent ++ more) :
    Covers cfg l' r := by
  obtain ⟨more, hsent⟩ := hsent
  obtain ⟨hanswered, b, f, hfields, before, hbytes, hframes, hstaged⟩ := h
  refine ⟨by rw [ha]; exact hanswered, b, f, hfields, before, hbytes, hframes, ?_⟩
  rw [ha, hsent, List.take_append_of_le_length harrived]
  exact hreceiver.trans hstaged

theorem Funded.initial : Funded cfg (Link.initial : Link Time) where
  arrived_le := Nat.zero_le _
  bounded := Receiver.Bounded.initial
  replies := by simp [Link.initial]
  basis := by simp [Link.initial]
  unarmed := by simp [Link.initial, Sender.initial]
  held := by simp [Link.initial, Sender.initial]
  aborts := by simp [Link.initial, Sender.initial]
  certified := by simp [Link.initial]

/-- A step of the sender that puts `more` on the channel. -/
theorem Funded.extend {l l' : Link Time} (h : Funded cfg l) (more : List Frame)
    (hreceiver : l'.receiver = l.receiver) (harrived : l'.arrived = l.arrived)
    (hreplies : l'.replies = l.replies) (hbasis : l'.basis = l.basis)
    (hsent : l'.sent = l.sent ++ more)
    (hheld : ∀ key encoded, l'.sender.inflight.lookup key = some encoded →
      l.sender.inflight.lookup key = some encoded ∨ ∃ f ∈ more, f.encode = .ok encoded)
    (haborts : ∀ key encoded, l'.sender.bestEffortAborts.lookup key = some encoded →
      ∃ k, (Sender.abortFrame k).encode = .ok encoded)
    (hunarmed : l.basis = none → l'.sender.availableFrames = 0 ∧
      l'.sender.lastCreditSequence = -1)
    (hfit : ∀ i f, more[i]? = some f → f.frameType = .PUT_CHUNK → ∃ r, l.basis = some r ∧
      Within (putChunks (l.sent.drop r.answered ++ more.take (i + 1))) r) :
    Funded cfg l' := by
  have hcovers : ∀ r, Covers cfg l r → Covers cfg l' r := by
    intro r hr
    exact hr.mono h.arrived_le (by rw [hreceiver]) harrived ⟨more, hsent⟩
  refine
    { arrived_le := ?_, bounded := by rw [hreceiver]; exact h.bounded, replies := ?_, basis := ?_,
      unarmed := ?_, held := ?_, aborts := haborts, certified := ?_ }
  · rw [harrived, hsent, List.length_append]
    exact Nat.le_add_right_of_le h.arrived_le
  · rw [hreplies]
    exact fun r hr hc => hcovers r (h.replies r hr hc)
  · rw [hbasis]
    exact fun r hr => hcovers r (h.basis r hr)
  · rw [hbasis]
    intro hnone
    obtain ⟨-, -, hempty⟩ := h.unarmed hnone
    refine ⟨(hunarmed hnone).1, (hunarmed hnone).2, ?_⟩
    rw [hsent, putChunks_append, hempty, Finset.empty_union]
    apply Finset.eq_empty_of_forall_notMem
    intro x hx
    obtain ⟨f, hf, hchunk⟩ := mem_putChunks.mp hx
    obtain ⟨i, hi⟩ := List.mem_iff_getElem?.mp hf
    by_cases htype : f.frameType = .PUT_CHUNK
    · obtain ⟨r, hr, -⟩ := hfit i f hi htype
      rw [hnone] at hr
      cases hr
    · rw [chunkOf_eq_none htype] at hchunk
      cases hchunk
  · intro key encoded hk
    rw [hsent]
    rcases hheld key encoded hk with hk | ⟨f, hf, hencode⟩
    · obtain ⟨f, hf, hencode⟩ := h.held key encoded hk
      exact ⟨f, List.mem_append_left _ hf, hencode⟩
    · exact ⟨f, List.mem_append_right _ hf, hencode⟩
  · intro i f hi hf htype
    rw [harrived] at hi
    rw [hsent] at hf
    by_cases hlt : i < l.sent.length
    · rw [List.getElem?_append_left hlt] at hf
      obtain ⟨r, hr, hwithin⟩ := h.certified i f hi hf htype
      refine ⟨r, hcovers r hr, ?_⟩
      rwa [hsent, List.take_append_of_le_length hlt]
    · rw [Nat.not_lt] at hlt
      rw [List.getElem?_append_right hlt] at hf
      obtain ⟨r, hr, hwithin⟩ := hfit _ f hf htype
      have hc := h.basis r hr
      refine ⟨r, hcovers r hc, ?_⟩
      have htake : (l.sent ++ more).take (i + 1) =
          l.sent ++ more.take (i - l.sent.length + 1) := by
        rw [List.take_append, List.take_of_length_le (by omega)]
        congr 2
        omega
      rw [hsent, htake, List.drop_append_of_le_length (hc.1.trans h.arrived_le)]
      exact hwithin

theorem Funded.basis_of_sent {l : Link Time} (h : Funded cfg l) {f : Frame} (hf : f ∈ l.sent)
    (htype : f.frameType = .PUT_CHUNK) : ∃ r, l.basis = some r := by
  cases hb : l.basis with
  | some r => exact ⟨r, rfl⟩
  | none =>
      obtain ⟨-, -, hempty⟩ := h.unarmed hb
      obtain ⟨index, hchunk⟩ := chunkOf_eq_some htype
      have hmem : (f.key, index, f.payload) ∈ putChunks l.sent := mem_putChunks.mpr ⟨f, hf, hchunk⟩
      rw [hempty] at hmem
      exact absurd hmem (Finset.notMem_empty _)

/-- Putting one frame on the channel that fits the newest applied CREDIT. -/
theorem Funded.fit_singleton {l : Link Time} {f : Frame}
    (hbasis : f.frameType = .PUT_CHUNK → ∃ r, l.basis = some r)
    (hfit : f.frameType = .PUT_CHUNK → l.FitsCredit f) :
    ∀ i g, [f][i]? = some g → g.frameType = .PUT_CHUNK → ∃ r, l.basis = some r ∧
      Within (putChunks (l.sent.drop r.answered ++ [f].take (i + 1))) r := by
  intro i g hg htype
  obtain ⟨hi, hg⟩ := List.getElem?_eq_some_iff.mp hg
  have hzero : i = 0 := by simpa using hi
  subst hzero
  simp only [List.getElem_cons_zero] at hg
  subst hg
  obtain ⟨r, hr⟩ := hbasis htype
  exact ⟨r, hr, hfit htype r hr⟩

theorem markedLocalOnly_aborts {c : SenderConfig} {s s' : Sender} {key : Key}
    (hm : Sender.MarkedLocalOnly c s key s')
    (h : ∀ key encoded, s.bestEffortAborts.lookup key = some encoded →
      ∃ k, (Sender.abortFrame k).encode = .ok encoded) :
    ∀ key encoded, s'.bestEffortAborts.lookup key = some encoded →
      ∃ k, (Sender.abortFrame k).encode = .ok encoded := by
  intro k encoded hk
  rcases hm.aborts with ha | ⟨b, hb, ha⟩
  · rw [ha] at hk
    exact h k encoded hk
  · rw [ha] at hk
    rcases AList.lookup_insert_some hk with ⟨-, rfl⟩ | ⟨-, hk⟩
    · exact ⟨key, hb⟩
    · exact h k encoded hk

/-- Marking a transaction local-only puts nothing on the channel and spends nothing. -/
theorem Funded.degrade {l : Link Time} (h : Funded cfg l) (l' : Link Time) {s : Sender}
    {key : Key}
    (hm : Sender.MarkedLocalOnly cfg.sender s key l'.sender)
    (hheld : ∀ k encoded, s.inflight.lookup k = some encoded →
      l.sender.inflight.lookup k = some encoded)
    (haborts : s.bestEffortAborts = l.sender.bestEffortAborts)
    (hframes : s.availableFrames = l.sender.availableFrames)
    (hlast : s.lastCreditSequence = l.sender.lastCreditSequence)
    (hl : l' = { l with sender := l'.sender }) : Funded cfg l' := by
  refine h.extend [] ?_ ?_ ?_ ?_ ?_ ?_ ?_ ?_ ?_
  · rw [hl]
  · rw [hl]
  · rw [hl]
  · rw [hl]
  · rw [hl, List.append_nil]
  · intro k encoded hk
    rw [hm.inflight] at hk
    exact Or.inl (hheld k encoded (AList.lookup_filter_some hk))
  · exact markedLocalOnly_aborts hm (by rw [haborts]; exact h.aborts)
  · intro hnone
    obtain ⟨hzero, hminus, -⟩ := h.unarmed hnone
    exact ⟨by rw [hm.availableFrames, hframes, hzero], by
      rw [hm.lastCreditSequence, hlast, hminus]⟩
  · intro i f hf
    simp at hf

theorem Funded.offer {l : Link Time} (h : Funded cfg l) (f : Frame)
    (hfit : f.frameType = .PUT_CHUNK → Admits l.sender f → l.FitsCredit f) :
    Funded cfg (l.act cfg (.offer f)) := by
  have hoffered := l.sender.offer_offered cfg.sender f
  rw [act]
  generalize l.sender.offer cfg.sender f = outcome at hoffered
  cases hoffered with
  | refused result hr =>
      rw [l.takeOffer_none f _ hr]
      exact h
  | degraded result s' hr hm =>
      rw [l.takeOffer_none f _ hr]
      exact h.degrade { l with sender := s' } hm (fun _ _ hk => hk) rfl rfl rfl rfl
  | again encoded hencode hlookup =>
      have hheld : f.frameKey ∈ l.sender.inflight := AList.lookup_isSome.mp (by rw [hlookup]; rfl)
      rw [l.takeOffer_some _ hencode]
      refine h.extend [f] (by simp) (by simp) (by simp) (by simp) rfl ?_ ?_ ?_ ?_
      · intro k b hk
        exact Or.inl (by simpa using hk)
      · intro k b hk
        exact h.aborts k b (by simpa using hk)
      · intro hnone
        simpa using And.intro (h.unarmed hnone).1 (h.unarmed hnone).2.1
      · apply Funded.fit_singleton
        · intro htype
          obtain ⟨g, hg, hgencode⟩ := h.held _ _ hlookup
          rw [Frame.encode_inj hencode hgencode] at htype
          exact h.basis_of_sent hg htype
        · intro htype
          exact hfit htype (Or.inl hheld)
  | chunk encoded hencode hlookup htype hframes hbytes =>
      have hbasis : ∃ r, l.basis = some r := by
        cases hb : l.basis with
        | some r => exact ⟨r, rfl⟩
        | none =>
            have := (h.unarmed hb).1
            omega
      rw [l.takeOffer_some _ hencode]
      refine h.extend [f] (by simp) (by simp) (by simp) (by simp) rfl ?_ ?_ ?_ ?_
      · intro k b hk
        rcases AList.lookup_insert_some (by simpa using hk) with ⟨-, rfl⟩ | ⟨-, hk⟩
        · exact Or.inr ⟨f, by simp, hencode⟩
        · exact Or.inl hk
      · intro k b hk
        exact h.aborts k b (by simpa using hk)
      · intro hnone
        obtain ⟨r, hr⟩ := hbasis
        rw [hnone] at hr
        cases hr
      · exact Funded.fit_singleton (fun _ => hbasis)
          fun htype => hfit htype (Or.inr ⟨hframes, hbytes⟩)
  | control encoded hencode hlookup htype =>
      rw [l.takeOffer_some _ hencode]
      refine h.extend [f] (by simp) (by simp) (by simp) (by simp) rfl ?_ ?_ ?_ ?_
      · intro k b hk
        rcases AList.lookup_insert_some (by simpa using hk) with ⟨-, rfl⟩ | ⟨-, hk⟩
        · exact Or.inr ⟨f, by simp, hencode⟩
        · exact Or.inl hk
      · intro k b hk
        exact h.aborts k b (by simpa using hk)
      · intro hnone
        simpa using And.intro (h.unarmed hnone).1 (h.unarmed hnone).2.1
      · exact Funded.fit_singleton (fun ht => absurd ht htype) fun ht => absurd ht htype

theorem Funded.retransmit {l : Link Time} (h : Funded cfg l) (index : ℕ)
    (hfit : Fits l (.retransmit index : Action Time)) :
    Funded cfg (l.act cfg (.retransmit index)) := by
  rw [act]
  split
  · rename_i encoded hencoded
    have hmem : encoded ∈ l.sender.inflight.entries.map Sigma.snd :=
      List.mem_reverse.mp (List.mem_of_getElem? hencoded)
    obtain ⟨e, he, rfl⟩ := List.mem_map.mp hmem
    obtain ⟨f, hf, hencode⟩ := h.held e.1 e.2 (AList.lookup_eq_some_iff.mpr he)
    have hwire := decodeWire_encode hencode
    refine h.extend [f] rfl rfl rfl rfl ?_ (fun k b hk => Or.inl hk) h.aborts ?_ ?_
    · rw [transmit, hwire]
    · exact fun hnone => ⟨(h.unarmed hnone).1, (h.unarmed hnone).2.1⟩
    · exact Funded.fit_singleton (fun htype => h.basis_of_sent hf htype)
        fun htype => hfit f (by rw [hencoded, Option.map_some, Option.getD_some, hwire]; simp) htype
  · exact h

theorem Funded.sendAborts {l : Link Time} (h : Funded cfg l) :
    Funded cfg (l.act cfg .sendAborts) := by
  rw [act, foldl_transmit]
  refine h.extend _ rfl rfl rfl rfl rfl (fun k b hk => Or.inl hk) ?_ ?_ ?_
  · intro k b hk
    simp [Sender.takeBestEffortAborts] at hk
  · exact fun hnone => ⟨(h.unarmed hnone).1, (h.unarmed hnone).2.1⟩
  · intro i f hf htype
    have hmem := List.mem_of_getElem? hf
    obtain ⟨b, hb, hfb⟩ := List.mem_flatMap.mp hmem
    obtain ⟨e, he, rfl⟩ := List.mem_map.mp (List.mem_reverse.mp hb)
    obtain ⟨k, hk⟩ := h.aborts e.1 e.2 (AList.lookup_eq_some_iff.mpr he)
    rw [decodeWire_encode hk, List.mem_singleton] at hfb
    rw [hfb] at htype
    cases htype

/-- The channel up to and with the next frame. -/
theorem Covers.deliver {l l' : Link Time} {r : Reply} {f : Frame} (h : Covers cfg l r)
    (hnext : l.next? = some f) (hsent : l'.sent = l.sent) (harrived : l'.arrived = l.arrived + 1)
    (hstaged : l'.receiver.staged ⊆ l.receiver.staged ∪ putChunks [f]) : Covers cfg l' r := by
  obtain ⟨hanswered, b, n, hfields, before, hbytes, hframes, hsub⟩ := h
  obtain ⟨hlt, htake⟩ := take_arrived_succ hnext
  refine ⟨by omega, b, n, hfields, before, hbytes, hframes, ?_⟩
  have hlen : r.answered ≤ (l.sent.take l.arrived).length := by
    rw [List.length_take]
    omega
  rw [hsent, harrived, htake, List.drop_append_of_le_length hlen, putChunks_append,
    ← Finset.union_assoc]
  exact hstaged.trans (Finset.union_subset_union_left hsub)

theorem Funded.deliver {l : Link Time} (h : Funded cfg l) (now stamp : Time) (raises : Bool) :
    Funded cfg (l.act cfg (.deliver now stamp raises)) := by
  rw [act]
  split
  · exact h
  · rename_i f hnext
    obtain ⟨hlt, htake⟩ := take_arrived_succ hnext
    have hbounded := h.bounded.receive ⟨f, now, stamp, raises⟩
    have hstaged := l.receiver.receive_staged_subset cfg.receiver ⟨f, now, stamp, raises⟩
    have hreplies := @Receiver.receive_replies _ cfg.receiver l.receiver ⟨f, now, stamp, raises⟩
    dsimp only
    generalize l.receiver.receive cfg.receiver ⟨f, now, stamp, raises⟩ = outcome at *
    obtain ⟨result, s⟩ := outcome
    dsimp only at *
    have hcovers : ∀ r, Covers cfg l r → Covers cfg { l with
        receiver := s
        arrived := l.arrived + 1
        replies := l.replies ++ repliesTo (l.arrived + 1) result } r :=
      fun r hr => hr.deliver hnext rfl rfl hstaged
    refine
      { arrived_le := hlt, bounded := hbounded, replies := ?_, basis := ?_, unarmed := h.unarmed,
        held := h.held, aborts := h.aborts, certified := ?_ }
    · intro r hr htype
      rcases List.mem_append.mp hr with hr | hr
      · exact hcovers r (h.replies r hr htype)
      · cases result with
        | error e => simp [repliesTo] at hr
        | ok frames =>
            obtain ⟨ack, credit⟩ := frames
            obtain ⟨hack, hcredit⟩ := hreplies rfl
            simp only [repliesTo, List.mem_cons, List.not_mem_nil, or_false] at hr
            rcases hr with rfl | rfl
            · rw [hack] at htype
              cases htype
            · have hb := hbounded.bytes
              have hc := hbounded.chunks
              refine ⟨le_rfl, _, _, hcredit, s.staged, ?_, ?_, Finset.subset_union_left⟩
              · rw [Receiver.bytesOf_staged]
                omega
              · rw [Receiver.card_staged]
                omega
    · exact fun r hr => hcovers r (h.basis r hr)
    · intro i g hi hg htype
      obtain ⟨r, hr, hwithin⟩ := h.certified i g (by dsimp only at hi; omega) hg htype
      exact ⟨r, hcovers r hr, hwithin⟩

theorem Funded.expire {l : Link Time} (h : Funded cfg l) (now : Time) :
    Funded cfg (l.act cfg (.expire now)) := by
  have hcovers : ∀ r, Covers cfg l r → Covers cfg (l.act cfg (.expire now)) r :=
    fun r hr => hr.mono h.arrived_le (l.receiver.expireInactive_staged_subset now) rfl
      ⟨[], by simp [act]⟩
  refine
    { arrived_le := h.arrived_le, bounded := h.bounded.expireInactive now,
      replies := fun r hr ht => hcovers r (h.replies r hr ht),
      basis := fun r hr => hcovers r (h.basis r hr), unarmed := h.unarmed, held := h.held,
      aborts := h.aborts, certified := ?_ }
  intro i f hi hf htype
  obtain ⟨r, hr, hwithin⟩ := h.certified i f hi hf htype
  exact ⟨r, hcovers r hr, hwithin⟩

theorem Funded.lose {l : Link Time} (h : Funded cfg l) : Funded cfg (l.act cfg .lose) :=
  { arrived_le := h.arrived_le, bounded := h.bounded,
    replies := fun r hr => h.replies r (List.mem_of_mem_tail hr), basis := h.basis,
    unarmed := h.unarmed, held := h.held, aborts := h.aborts, certified := h.certified }

/-- The sender takes an answer: it may release or give up frames, or install a CREDIT. -/
theorem Funded.reply {l : Link Time} (h : Funded cfg l) : Funded cfg (l.act cfg .reply) := by
  rw [act]
  split
  · exact h
  · rename_i r rest hrest
    have hmem : ∀ r' ∈ rest, r' ∈ l.replies := fun r' hr' => by rw [hrest]; simp [hr']
    have htail : Funded cfg { l with replies := rest } :=
      { arrived_le := h.arrived_le, bounded := h.bounded,
        replies := fun r' hr' => h.replies r' (hmem r' hr'), basis := h.basis,
        unarmed := h.unarmed, held := h.held, aborts := h.aborts, certified := h.certified }
    dsimp only
    by_cases hack : r.frame.frameType = .ACK
    · rw [if_pos hack]
      have hbasis : newBasis l.sender r l.basis = l.basis := by
        rw [newBasis, if_neg (by rw [hack]; simp)]
      rw [hbasis]
      have hspec := l.sender.acknowledge_acknowledged cfg.sender r.frame
      generalize (l.sender.acknowledge cfg.sender r.frame).2 = s at hspec
      cases hspec with
      | ignored => exact htail
      | released ackSequence status hf hgood =>
          refine htail.extend [] rfl rfl rfl rfl (by simp) ?_ h.aborts ?_ (by simp)
          · exact fun k b hk => Or.inl (AList.lookup_erase_some hk).2
          · exact fun hnone => ⟨(h.unarmed hnone).1, (h.unarmed hnone).2.1⟩
      | degraded ackSequence status hf hbad hheld s' hm =>
          exact htail.degrade { l with sender := s, replies := rest } hm
            (fun k b hk => (AList.lookup_erase_some hk).2) rfl rfl rfl rfl
    · rw [if_neg hack]
      cases hf : r.frame.fields with
      | credit b n =>
          have htype : r.frame.frameType = .CREDIT := by rw [Frame.frameType, hf]; rfl
          have hcovers := h.replies r (by rw [hrest]; simp) htype
          by_cases hnew : l.sender.lastCreditSequence < r.frame.sequence
          · have hbasis : newBasis l.sender r l.basis = some r := by
              rw [newBasis, if_pos ⟨htype, hnew⟩]
            rw [hbasis]
            simp only [Sender.applyCredit, hf, if_neg (not_le.mpr hnew)]
            exact
              { arrived_le := h.arrived_le, bounded := h.bounded, replies := htail.replies,
                basis := fun r' hr' => Option.some.inj hr' ▸ hcovers,
                unarmed := fun hnone => absurd hnone (by simp),
                held := h.held, aborts := h.aborts, certified := h.certified }
          · have hbasis : newBasis l.sender r l.basis = l.basis := by
              rw [newBasis, if_neg fun hc => hnew hc.2]
            rw [hbasis]
            simp only [Sender.applyCredit, hf, if_pos (not_lt.mp hnew)]
            exact htail
      | _ =>
          have hbasis : newBasis l.sender r l.basis = l.basis := by
            rw [newBasis, if_neg]
            rintro ⟨htype, -⟩
            rw [Frame.frameType, hf] at htype
            cases htype
          rw [hbasis]
          simp only [Sender.applyCredit, hf]
          exact htail

theorem Funded.act {l : Link Time} (h : Funded cfg l) {a : Action Time} (hfit : Fits l a) :
    Funded cfg (l.act cfg a) := by
  cases a with
  | offer f => exact h.offer f hfit
  | retransmit index => exact h.retransmit index hfit
  | sendAborts => exact h.sendAborts
  | deliver now stamp raises => exact h.deliver now stamp raises
  | expire now => exact h.expire now
  | reply => exact h.reply
  | lose => exact h.lose

/-! ## Overflow -/

/-- The delivery reaches the staging check of `_put_chunk` and the check fails. -/
def overflows (cfg : ReceiverConfig Time) (s : Receiver Time) (d : Delivery Time) : Bool :=
  let s := s.expireInactive cfg d.now
  s.checkGeneration d.frame && match d.frame.fields, s.active.lookup d.frame.key with
    | .putChunk index digest, some t =>
        (t.sequences.lookup d.frame.sequence).isNone && sha256 d.frame.payload = digest &&
          (t.chunks.lookup index).isNone && t.chunks.size + 1 ≤ cfg.maxContextChunks &&
          !(cfg.onChunk && d.raises) &&
          (cfg.maxStagedBytes <
              s.stagedBytes + (Receiver.stagedEntry cfg d.frame digest).stagedBytes ||
            cfg.maxStagedChunks <
              s.stagedChunks + (Receiver.stagedEntry cfg d.frame digest).stagedChunks)
    | _, _ => false

theorem overflows_eq_true {cfg : ReceiverConfig Time} {s : Receiver Time} {d : Delivery Time}
    (h : overflows cfg s d = true) :
    ∃ t index digest, Receiver.PutsNewChunk cfg (s.expireInactive cfg d.now) d t index digest ∧
      (s.expireInactive cfg d.now).checkGeneration d.frame = true ∧
      (cfg.onChunk && d.raises) = false ∧
      (cfg.maxStagedBytes < (s.expireInactive cfg d.now).stagedBytes +
          (Receiver.stagedEntry cfg d.frame digest).stagedBytes ∨
        cfg.maxStagedChunks < (s.expireInactive cfg d.now).stagedChunks +
          (Receiver.stagedEntry cfg d.frame digest).stagedChunks) := by
  unfold overflows at h
  rw [Bool.and_eq_true] at h
  obtain ⟨hcurrent, h⟩ := h
  split at h
  · rename_i index digest t hfields hactive
    simp only [Bool.and_eq_true, Bool.or_eq_true, decide_eq_true_eq, Option.isNone_iff_eq_none,
      Bool.not_eq_true'] at h
    obtain ⟨⟨⟨⟨⟨hsequence, hhash⟩, hindex⟩, hfits⟩, hreturned⟩, hfull⟩ := h
    exact ⟨t, index, digest, ⟨hfields, hactive, hsequence, hhash, hindex, hfits⟩, hcurrent,
      hreturned, hfull⟩
  · cases h

/-- An overflow discards the transaction and is answered "aborted". -/
theorem overflows_abandons {cfg : ReceiverConfig Time} {s : Receiver Time} {d : Delivery Time}
    {encoded : Bytes} (hencode : d.frame.encode = .ok encoded)
    (h : overflows cfg s d = true) :
    ∃ ack credit, (s.receive cfg d).1 = .ok (ack, credit) ∧
      ack.fields = .ack d.frame.sequence .aborted ∧
      (s.receive cfg d).2.active.lookup d.frame.key = none := by
  obtain ⟨t, index, digest, hput, hcurrent, hreturned, hfull⟩ := overflows_eq_true h
  have hstage : ((s.expireInactive cfg d.now).log
      (Receiver.chunkCall cfg d.frame t index digest)).stageChunk cfg d.frame t index
        (Receiver.stagedEntry cfg d.frame digest) (sha256 encoded) d.stamp =
      ((s.expireInactive cfg d.now).log
        (Receiver.chunkCall cfg d.frame t index digest)).abandon d.frame.key := by
    unfold Receiver.stageChunk
    exact if_pos hfull
  have hhandle : (s.expireInactive cfg d.now).handle cfg d =
      some (((s.expireInactive cfg d.now).log
        (Receiver.chunkCall cfg d.frame t index digest)).abandon d.frame.key) := by
    simp [Receiver.handle, hput.fields_eq, Receiver.putChunk, hput.active, hencode,
      hput.sequence_new, Receiver.putNewChunk, hput.payload_hash, hput.index_new,
      Nat.not_lt.mpr hput.fits, hreturned, hstage]
  unfold Receiver.receive
  simp only [hhandle, hcurrent, Bool.not_true, Bool.false_eq_true, ↓reduceIte,
    Receiver.abandon]
  exact ⟨_, _, rfl, rfl, AList.lookup_erase _ _⟩

/-- The action is a delivery that overflows the staging bounds. -/
def overflowsAt (cfg : LinkConfig Time) (l : Link Time) : Action Time → Bool
  | .deliver now stamp raises =>
      l.next?.any fun f => overflows cfg.receiver l.receiver ⟨f, now, stamp, raises⟩
  | _ => false

/-- What is staged and the arriving chunk are within the bounds. -/
theorem Funded.not_overflows {l : Link Time} (h : Funded cfg l) {f : Frame}
    (hnext : l.next? = some f) (now stamp : Time) (raises : Bool) :
    overflows cfg.receiver l.receiver ⟨f, now, stamp, raises⟩ = false := by
  rw [← Bool.not_eq_true]
  intro hoverflow
  obtain ⟨t, index, digest, hput, -, -, hfull⟩ := overflows_eq_true hoverflow
  dsimp only at hput hfull
  have htype : f.frameType = .PUT_CHUNK := by rw [Frame.frameType, hput.fields_eq]; rfl
  obtain ⟨hlt, htake⟩ := take_arrived_succ hnext
  obtain ⟨r, ⟨hanswered, b, n, hfields, before, hbytes, hframes, hsub⟩, hwithin⟩ :=
    h.certified l.arrived f le_rfl hnext htype
  obtain ⟨hwb, hwn⟩ := hwithin.credit hfields
  -- The new chunk is not staged yet, so the bounds hold for the set with it.
  have hchunk : chunkOf f = some (f.key, index, f.payload) := by
    rw [chunkOf, hput.fields_eq]
  have hnotin : (f.key, index, f.payload) ∉
      (l.receiver.expireInactive cfg.receiver now).staged := by
    intro hmem
    obtain ⟨t', ht', digest', hc⟩ := Receiver.mem_staged.mp hmem
    rw [hput.active] at ht'
    cases ht'
    rw [hput.index_new] at hc
    cases hc
  have hall : insert (f.key, index, f.payload)
      (l.receiver.expireInactive cfg.receiver now).staged ⊆
        before ∪ putChunks ((l.sent.take (l.arrived + 1)).drop r.answered) := by
    have hlen : r.answered ≤ (l.sent.take l.arrived).length := by
      rw [List.length_take]
      omega
    rw [htake, List.drop_append_of_le_length hlen, putChunks_append, ← Finset.union_assoc]
    apply Finset.insert_subset
    · exact Finset.mem_union_right _ (mem_putChunks.mpr ⟨f, by simp, hchunk⟩)
    · exact ((l.receiver.expireInactive_staged_subset now).trans hsub).trans
        Finset.subset_union_left
  have hbytesAll := (bytesOf_mono hall).trans (bytesOf_union_le _ _)
  have hcardAll := (Finset.card_le_card hall).trans (Finset.card_union_le _ _)
  rw [bytesOf, Finset.sum_insert hnotin, ← bytesOf, Receiver.bytesOf_staged] at hbytesAll
  rw [Finset.card_insert_of_notMem hnotin, Receiver.card_staged] at hcardAll
  dsimp only at hbytesAll
  have hentry : (Receiver.stagedEntry cfg.receiver f digest).stagedBytes ≤ f.payload.length ∧
      (Receiver.stagedEntry cfg.receiver f digest).stagedChunks ≤ 1 := by
    unfold Receiver.stagedEntry ChunkEntry.stagedBytes ChunkEntry.stagedChunks
    split <;> simp
  omega

/-- A receiver that streams chunks out stages nothing. -/
theorem not_overflows_of_streaming {c : ReceiverConfig Time} (hstream : c.onChunk = true)
    {s : Receiver Time} (h : Receiver.Bounded c s) (d : Delivery Time) :
    overflows c s d = false := by
  rw [← Bool.not_eq_true]
  intro hoverflow
  obtain ⟨t, index, digest, -, -, -, hfull⟩ := overflows_eq_true hoverflow
  have hb := h.expireInactive d.now
  have hbytes := hb.bytes
  have hchunks := hb.chunks
  simp only [Receiver.stagedEntry, hstream, ↓reduceIte, ChunkEntry.stagedBytes,
    ChunkEntry.stagedChunks, Option.map_none, Option.getD_none, Option.isSome_none,
    Bool.false_eq_true, Nat.add_zero] at hfull
  omega

/-- Staged chunks and chunks on their way fit into the staging bounds. -/
def InFlightFits (cfg : LinkConfig Time) (l : Link Time) : Prop :=
  bytesOf (l.receiver.staged ∪ putChunks (l.sent.drop l.arrived)) ≤ cfg.receiver.maxStagedBytes ∧
    (l.receiver.staged ∪ putChunks (l.sent.drop l.arrived)).card ≤ cfg.receiver.maxStagedChunks

theorem Funded.inFlightFits {l : Link Time} (h : Funded cfg l) : InFlightFits cfg l := by
  -- By the last PUT_CHUNK among the first `n` frames on their way.
  have hprefix : ∀ n, l.arrived ≤ n → n ≤ l.sent.length →
      bytesOf (l.receiver.staged ∪ putChunks ((l.sent.take n).drop l.arrived)) ≤
          cfg.receiver.maxStagedBytes ∧
        (l.receiver.staged ∪ putChunks ((l.sent.take n).drop l.arrived)).card ≤
          cfg.receiver.maxStagedChunks := by
    intro n hn
    induction n, hn using Nat.le_induction with
    | base =>
        intro hlen
        have hnil : (l.sent.take l.arrived).drop l.arrived = [] :=
          List.drop_eq_nil_of_le (by rw [List.length_take]; omega)
        rw [hnil, putChunks_nil, Finset.union_empty, Receiver.bytesOf_staged, Receiver.card_staged]
        exact ⟨h.bounded.bytes, h.bounded.chunks⟩
    | succ n hn ih =>
        intro hlen
        have hget : l.sent[n]? = some (l.sent[n]) := List.getElem?_eq_getElem (by omega)
        by_cases htype : (l.sent[n]).frameType = .PUT_CHUNK
        · obtain ⟨r, ⟨hanswered, b, k, hfields, before, hbytes, hframes, hsub⟩, hwithin⟩ :=
            h.certified n _ hn hget htype
          obtain ⟨hwb, hwk⟩ := hwithin.credit hfields
          have hsplit : (l.sent.take (n + 1)).drop r.answered =
              (l.sent.take l.arrived).drop r.answered ++ (l.sent.take (n + 1)).drop l.arrived := by
            have htake : l.sent.take l.arrived = (l.sent.take (n + 1)).take l.arrived := by
              rw [List.take_take, Nat.min_eq_left (by omega)]
            conv_lhs => rw [← List.take_append_drop l.arrived (l.sent.take (n + 1))]
            rw [List.drop_append_of_le_length, ← htake]
            rw [List.length_take, List.length_take]
            omega
          have hall : l.receiver.staged ∪ putChunks ((l.sent.take (n + 1)).drop l.arrived) ⊆
              before ∪ putChunks ((l.sent.take (n + 1)).drop r.answered) := by
            rw [hsplit, putChunks_append, ← Finset.union_assoc]
            exact Finset.union_subset_union_left hsub
          have hb := (bytesOf_mono hall).trans (bytesOf_union_le _ _)
          have hc := (Finset.card_le_card hall).trans (Finset.card_union_le _ _)
          omega
        · have hdrop : putChunks ((l.sent.take (n + 1)).drop l.arrived) =
              putChunks ((l.sent.take n).drop l.arrived) := by
            rw [List.take_add_one, hget, List.drop_append_of_le_length, putChunks_append]
            · simp [putChunks, chunkOf_eq_none htype]
            · rw [List.length_take]
              omega
          rw [hdrop]
          exact ih (by omega)
  have hall := hprefix l.sent.length h.arrived_le le_rfl
  rwa [List.take_length] at hall

theorem bounded_act {l : Link Time} (h : Receiver.Bounded cfg.receiver l.receiver)
    (a : Action Time) : Receiver.Bounded cfg.receiver (l.act cfg a).receiver := by
  cases a with
  | offer f =>
      rw [act, takeOffer_receiver]
      exact h
  | retransmit index =>
      rw [act]
      split
      · exact h
      · exact h
  | sendAborts =>
      rw [act, foldl_transmit]
      exact h
  | deliver now stamp raises =>
      rw [act]
      split
      · exact h
      · exact h.receive _
  | expire now => exact h.expireInactive now
  | reply =>
      rw [act]
      split
      · exact h
      · exact h
  | lose => exact h

/-- The receiver never runs over its staging bounds if it streams chunks out, or if every
PUT_CHUNK put on the channel fits the newest applied CREDIT together with the PUT_CHUNKs put
there since the frame it answers. Then staged chunks and chunks on their way fit too. -/
theorem credit_window_safe (cfg : LinkConfig Time) (actions : List (Action Time))
    (h : cfg.receiver.onChunk = true ∨ Throughout cfg Fits actions) :
    Throughout cfg (fun l a => overflowsAt cfg l a = false) actions ∧
      (cfg.receiver.onChunk = false → InFlightFits cfg (run cfg actions)) := by
  rcases h with hstream | hfits
  · refine ⟨?_, fun hc => by rw [hstream] at hc; cases hc⟩
    apply Run.throughout_of_invariant
      (I := fun l : Link Time => Receiver.Bounded cfg.receiver l.receiver)
    · exact fun l a hl => bounded_act hl a
    · intro l a hl
      cases a with
      | deliver now stamp raises =>
          rw [overflowsAt, Option.any_eq_false]
          exact fun f hf => not_overflows_of_streaming hstream hl _
      | _ => rfl
    · exact Receiver.Bounded.initial
  · constructor
    · apply hfits.imp_of_invariant (I := Funded cfg)
      · exact fun l a hl hfit => hl.act hfit
      · intro l a hl _
        cases a with
        | deliver now stamp raises =>
            rw [overflowsAt, Option.any_eq_false]
            exact fun f hf => hl.not_overflows hf now stamp raises
        | _ => rfl
      · exact Funded.initial
    · intro _
      exact (hfits.preserves (fun l a hl hfit => hl.act hfit) Funded.initial).inFlightFits

/-! ## A CREDIT that crosses a PUT_CHUNK -/

section Crossing

/-- The CREDIT for the second BEGIN was made before the chunk on its way arrived. -/
def crossing : List (Action ℕ) :=
  let first := sampleTransaction 49 isHexCode_one
  let second := sampleTransaction 50 rfl
  [.offer (sampleBegin first), .deliver 0 0 false, .reply, .reply, .offer (sampleBegin second),
    .offer (samplePut first 0 97), .deliver 0 0 false, .reply, .reply,
    .offer (samplePut first 1 98), .deliver 0 0 false, .deliver 0 0 false]

/-- Nothing is lost and nothing is sent twice, and still the last delivery overflows. -/
theorem crossing_overflows :
    ¬ Throughout narrowLink (fun l a => overflowsAt narrowLink l a = false) crossing := by
  decide +kernel

/-- Without the second chunk the run keeps the condition, and stages the first. -/
theorem credit_window_safe_crossing :
    Throughout narrowLink (fun l a => overflowsAt narrowLink l a = false) (crossing.take 9) ∧
      (narrowLink.receiver.onChunk = false →
        InFlightFits narrowLink (run narrowLink (crossing.take 9))) :=
  credit_window_safe narrowLink (crossing.take 9) (Or.inr (by decide +kernel))

end Crossing

end Link
end SparkCache.Replication
