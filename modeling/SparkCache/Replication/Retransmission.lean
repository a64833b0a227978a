import SparkCache.Replication.ScriptedLink

/-!
# Retransmission

Frames of a committed transaction that arrive again. A generation is live while
the receiver follows its frames and refuses none; it is lost once its ABORT was
offered or a newer generation superseded it before a commit, and then it is
never committed.
-/
namespace SparkCache.Replication.Link
variable {Time : Type*} {cfg : LinkConfig Time} {key : Key} {l : Link Time}

/-- Only a PUT_CHUNK or a stale frame of a committed transaction is refused. -/
theorem Scripted.not_refused (h : Scripted l) {f : Frame} (hnext : l.next? = some f)
    (hcommitted : f.key ∈ l.receiver.committed) (htype : f.frameType ≠ .PUT_CHUNK)
    (hcurrent : l.receiver.checkGeneration f = true) (now stamp : Time) (raises : Bool)
    {ack credit : Frame}
    (hanswer : (l.receiver.receive cfg.receiver ⟨f, now, stamp, raises⟩).1 = .ok (ack, credit)) :
    ack.refuses = false := by
  obtain ⟨replica, hr⟩ := Option.isSome_iff_exists.mp (AList.lookup_isSome.mpr hcommitted)
  obtain ⟨⟨b, hb, hbkey, hbfields⟩, m, hm, hmkey, count, hmfields⟩ :=
    h.accounts.receipts f.key replica hr
  have hmem : f.frameType ≠ .ABORT → f ∈ l.offersOf f.key := by
    intro hne
    rcases (h.sent f (List.mem_of_getElem? hnext)).1 with hf | ⟨key, rfl⟩
    · exact mem_offersOf.mpr ⟨hf, rfl⟩
    · exact absurd rfl hne
  have hgood : ∀ (status : AckStatus) (s' : Receiver Time), status.refusal = false →
      (l.receiver.expireInactive cfg.receiver now).handle cfg.receiver ⟨f, now, stamp, raises⟩ =
        some (.ok status, s') → ack.refuses = false := by
    intro status s' hstatus hhandle
    rw [Receiver.receive_handled hcurrent hhandle] at hanswer
    cases hanswer
    exact hstatus
  cases hfields : f.fields with
  | begin c i =>
      have hf := hmem (by simp [Frame.frameType, hfields, Fields.frameType])
      have heq : b = f := (h.script f.key).begin_unique (mem_offersOf.mpr ⟨hb, hbkey⟩) hf
        (Frame.frameType_of_fields hbfields) (Frame.frameType_of_fields hfields)
      rw [heq, hfields] at hbfields
      cases hbfields
      refine hgood .committed (l.receiver.expireInactive cfg.receiver now) rfl ?_
      simp only [Receiver.handle, hfields, Receiver.begin, Receiver.expireInactive_committed, hr,
        and_self, ↓reduceIte]
  | putChunk index digest => exact absurd (Frame.frameType_of_fields hfields) htype
  | commit manifest n =>
      have hf := hmem (by simp [Frame.frameType, hfields, Fields.frameType])
      have heq : m = f := (h.script f.key).commit_unique (mem_offersOf.mpr ⟨hm, hmkey⟩) hf
        (Frame.frameType_of_fields hmfields) (Frame.frameType_of_fields hfields)
      rw [heq, hfields] at hmfields
      cases hmfields
      refine hgood .committed (l.receiver.expireInactive cfg.receiver now) rfl ?_
      simp only [Receiver.handle, hfields, Receiver.commit, Receiver.expireInactive_committed, hr,
        ↓reduceIte]
  | abort reason =>
      have hactive : f.key ∉ (l.receiver.expireInactive cfg.receiver now).active := by
        rw [← AList.lookup_eq_none, Option.eq_none_iff_forall_ne_some]
        intro t ht
        have hnone := (h.accounts.begun f.key t (AList.lookup_filter_some ht)).1
        rw [hr] at hnone
        cases hnone
      refine hgood .duplicate (l.receiver.expireInactive cfg.receiver now) rfl ?_
      simp only [Receiver.handle, hfields, Receiver.abort, hactive, ↓reduceIte]
  | ack n status =>
      simp [Receiver.receive, Receiver.handle, hfields] at hanswer
  | credit b n =>
      simp [Receiver.receive, Receiver.handle, hfields] at hanswer

/-! ## Live and lost generations -/

/-- Each sent frame was offered, and sent after all that were offered before it. -/
def Ordered (offers sent : List Frame) : Prop :=
  ∀ earlier f later, sent = earlier ++ f :: later →
    ∃ before after, offers = before ++ f :: after ∧ ∀ g ∈ before, g ∈ earlier

theorem Ordered.mem {offers sent : List Frame} (h : Ordered offers sent) {f : Frame}
    (hf : f ∈ sent) : f ∈ offers := by
  obtain ⟨earlier, later, he⟩ := List.append_of_mem hf
  obtain ⟨before, after, rfl, -⟩ := h earlier f later he
  simp

/-- A frame is sent again. -/
theorem Ordered.again {offers sent : List Frame} (h : Ordered offers sent)
    (hall : ∀ g ∈ offers, g ∈ sent) {f : Frame} (hf : f ∈ offers) :
    Ordered offers (sent ++ [f]) := by
  intro earlier g later he
  rcases Script.concat_split he with ⟨rfl, rfl⟩ | ⟨init, he⟩
  · obtain ⟨before, after, rfl⟩ := List.append_of_mem hf
    exact ⟨before, after, rfl, fun g hg => hall g (List.mem_append_left _ hg)⟩
  · exact h earlier g init he

/-- A new frame is offered and sent. -/
theorem Ordered.next {offers sent : List Frame} (h : Ordered offers sent)
    (hall : ∀ g ∈ offers, g ∈ sent) (f : Frame) : Ordered (offers ++ [f]) (sent ++ [f]) := by
  intro earlier g later he
  rcases Script.concat_split he with ⟨rfl, rfl⟩ | ⟨init, he⟩
  · exact ⟨offers, [], rfl, hall⟩
  · obtain ⟨before, after, rfl, hbefore⟩ := h earlier g init he
    exact ⟨before, after ++ [f], by simp, hbefore⟩

/-- No newer generation of the transaction is remembered. -/
def Current (key : Key) (s : Receiver Time) : Prop :=
  ∀ latest, s.latestGeneration.lookup key.1 = some latest → latest ≤ key.2

structure Live (key : Key) (l : Link Time) : Prop where
  unaborted : ∀ f ∈ l.offersOf key, f.frameType ≠ .ABORT
  ordered : Ordered (l.offersOf key) (l.sentOf key)
  all_sent : ∀ f ∈ l.offersOf key, f ∈ l.sentOf key
  kept : key ∉ l.sender.localOnly
  unqueued : key ∉ l.sender.bestEffortAborts
  unrefused : ∀ r ∈ l.replies, r.frame.key = key → r.frame.refuses = false
  current : Current key l.receiver ∨ key ∈ l.receiver.committed
  progress : Receiver.Progress key (l.receivedOf key) l.receiver

/-- The generation is not committed, and will not be. -/
def Lost (key : Key) (l : Link Time) : Prop :=
  l.receiver.committed.lookup key = none ∧
    (((∃ f ∈ l.offersOf key, f.frameType = .ABORT) ∧
        ∀ f ∈ l.offersOf key, f.frameType ≠ .COMMIT) ∨
      ∃ latest, l.receiver.latestGeneration.lookup key.1 = some latest ∧ key.2 < latest)

theorem Live.initial : Live key (Link.initial : Link Time) where
  unaborted := by simp [offersOf, Link.initial]
  ordered := by
    intro earlier f later he
    simp [sentOf, Link.initial] at he
  all_sent := by simp [offersOf, Link.initial]
  kept := by simp [Link.initial, Sender.initial]
  unqueued := by simp [Link.initial, Sender.initial]
  unrefused := by simp [Link.initial]
  current := Or.inl (by simp [Current, Link.initial, Receiver.initial])
  progress := .fresh (by simp [receivedOf, Link.initial]) rfl rfl

theorem checkGeneration_eq_true {s : Receiver Time} {f : Frame} :
    s.checkGeneration f = true ↔ Current f.key s := by
  unfold Receiver.checkGeneration Current
  change _ ↔ ∀ latest, s.latestGeneration.lookup f.transactionId = some latest → latest ≤ f.generation
  split
  · rename_i hnone
    simp [hnone]
  · rename_i latest hsome
    simp [hsome]

/-- A step of the sender that leaves the transaction alone. -/
theorem Live.extend {l' : Link Time} (h : Live key l) (hl : l.arrived ≤ l.sent.length)
    (more : List Frame) (harrived : l'.arrived = l.arrived) (hreceiver : l'.receiver = l.receiver)
    (hsent : l'.sent = l.sent ++ more) (hmore : ∀ f ∈ more, f.key ≠ key)
    (hoffers : l'.offersOf key = l.offersOf key) (hkept : key ∉ l'.sender.localOnly)
    (hunqueued : key ∉ l'.sender.bestEffortAborts) (hreplies : ∀ r ∈ l'.replies, r ∈ l.replies) :
    Live key l' := by
  have hsentOf : l'.sentOf key = l.sentOf key := by
    have hnil : more.filter (fun f => decide (f.key = key)) = [] :=
      List.filter_eq_nil_iff.mpr fun f hf => by simpa using hmore f hf
    unfold sentOf
    rw [hsent, List.filter_append, hnil, List.append_nil]
  have hreceivedOf : l'.receivedOf key = l.receivedOf key := by
    unfold receivedOf
    rw [hsent, harrived, List.take_append_of_le_length hl]
  refine
    { unaborted := ?_, ordered := ?_, all_sent := ?_, kept := hkept, unqueued := hunqueued,
      unrefused := fun r hr => h.unrefused r (hreplies r hr), current := ?_, progress := ?_ }
  · rw [hoffers]
    exact h.unaborted
  · rw [hoffers, hsentOf]
    exact h.ordered
  · rw [hoffers, hsentOf]
    exact h.all_sent
  · rw [hreceiver]
    exact h.current
  · rw [hreceiver, hreceivedOf]
    exact h.progress

theorem received_subset_sent (l : Link Time) {f : Frame} (h : f ∈ l.receivedOf key) :
    f ∈ l.sentOf key := by
  unfold receivedOf at h
  unfold sentOf
  exact List.Sublist.subset ((List.take_sublist _ _).filter _) h

/-- A committed generation has a COMMIT among its offers. -/
theorem Live.commit_offered (h : Live key l) (hc : key ∈ l.receiver.committed) :
    ∃ f ∈ l.offersOf key, f.frameType = .COMMIT := by
  have hcommit : l.receiver.committed.lookup key ≠ none := by
    rw [Ne, AList.lookup_eq_none]
    exact not_not.mpr hc
  cases h.progress with
  | fresh hr hn ha => exact absurd hn hcommit
  | opened t ht hn ha => exact absurd hn hcommit
  | done replica count hb hm hn ha =>
      obtain ⟨g, hg, hgf⟩ := hm
      exact ⟨g, h.ordered.mem (l.received_subset_sent hg), Frame.frameType_of_fields hgf⟩

/-- A frame of the script is put on the channel. -/
theorem Live.push {l' : Link Time} (h : Live key l) (hl : l.arrived ≤ l.sent.length) {f : Frame}
    (hkey : f.key = key) (harrived : l'.arrived = l.arrived)
    (hreceiver : l'.receiver = l.receiver) (hsent : l'.sent = l.sent ++ [f])
    (hoffers : l'.offersOf key = l.offersOf key ∧ f ∈ l.offersOf key ∨
      l'.offersOf key = l.offersOf key ++ [f] ∧ f.frameType ≠ .ABORT)
    (hkept : key ∉ l'.sender.localOnly) (hunqueued : key ∉ l'.sender.bestEffortAborts)
    (hreplies : ∀ r ∈ l'.replies, r ∈ l.replies) : Live key l' := by
  have hsentOf : l'.sentOf key = l.sentOf key ++ [f] := by
    unfold sentOf
    rw [hsent, filter_concat, if_pos (by simpa using hkey)]
  have hreceivedOf : l'.receivedOf key = l.receivedOf key := by
    unfold receivedOf
    rw [hsent, harrived, List.take_append_of_le_length hl]
  refine
    { unaborted := ?_, ordered := ?_, all_sent := ?_, kept := hkept, unqueued := hunqueued,
      unrefused := fun r hr => h.unrefused r (hreplies r hr), current := ?_, progress := ?_ }
  · rcases hoffers with ⟨hsame, -⟩ | ⟨hnew, htype⟩
    · rw [hsame]
      exact h.unaborted
    · intro g hg
      rw [hnew, List.mem_append, List.mem_singleton] at hg
      rcases hg with hg | rfl
      · exact h.unaborted g hg
      · exact htype
  · rw [hsentOf]
    rcases hoffers with ⟨hsame, hmem⟩ | ⟨hnew, -⟩
    · rw [hsame]
      exact h.ordered.again h.all_sent hmem
    · rw [hnew]
      exact h.ordered.next h.all_sent f
  · intro g hg
    rw [hsentOf, List.mem_append, List.mem_singleton]
    rcases hoffers with ⟨hsame, -⟩ | ⟨hnew, -⟩
    · rw [hsame] at hg
      exact Or.inl (h.all_sent g hg)
    · rw [hnew, List.mem_append, List.mem_singleton] at hg
      exact hg.imp_left (h.all_sent g)
  · rw [hreceiver]
    exact h.current
  · rw [hreceiver, hreceivedOf]
    exact h.progress

theorem not_mem_of_marked {s s' : Sender} {c : SenderConfig} {other : Key}
    (hs : Sender.MarkedLocalOnly c s other s') (hne : key ≠ other)
    (h : key ∉ s.localOnly ∧ key ∉ s.bestEffortAborts) :
    key ∉ s'.localOnly ∧ key ∉ s'.bestEffortAborts := by
  simp only [← AList.lookup_eq_none] at h ⊢
  constructor
  · rw [hs.localOnly, Option.eq_none_iff_forall_ne_some]
    intro u hu
    have hlookup := AList.lookup_newest_some hu
    rw [AList.lookup_insert_ne hne, h.1] at hlookup
    cases hlookup
  · rcases hs.aborts with he | ⟨encoded, -, he⟩
    · rw [he]
      exact h.2
    · rw [he, AList.lookup_insert_ne hne]
      exact h.2

theorem not_mem_of_offered {s : Sender} {f : Frame} {c : SenderConfig}
    {outcome : Except ReplicationError (Option Bytes) × Sender}
    (ho : Sender.Offered c s f outcome) (hne : key ≠ f.key)
    (h : key ∉ s.localOnly ∧ key ∉ s.bestEffortAborts) :
    key ∉ outcome.2.localOnly ∧ key ∉ outcome.2.bestEffortAborts := by
  cases ho with
  | degraded result s' hr hs => exact not_mem_of_marked hs hne h
  | _ => exact h

theorem offersOf_takeOffer (key : Key) {f : Frame} {encoded : Bytes} (s : Sender)
    (h : f.encode = .ok encoded) :
    (l.takeOffer f (.ok (some encoded), s)).offersOf key =
      if f.key = key ∧ f ∉ l.offered then l.offersOf key ++ [f] else l.offersOf key := by
  unfold offersOf
  rw [takeOffer_offered s h]
  by_cases hmem : f ∈ l.offered
  · rw [if_pos hmem, if_neg (fun hc => hc.2 hmem)]
  · rw [if_neg hmem, filter_concat]
    by_cases hkey : f.key = key
    · rw [if_pos (by simpa using hkey), if_pos ⟨hkey, hmem⟩]
    · rw [if_neg (by simpa using hkey), if_neg (fun hc => hkey hc.1)]

/-- Offers of other transactions. -/
theorem Live.offer_other (h : Live key l) (hs : Scripted l) {f : Frame} (hne : key ≠ f.key) :
    Live key (l.act cfg (.offer f)) := by
  have ho := l.sender.offer_offered cfg.sender f
  obtain ⟨hkept, hunqueued⟩ := not_mem_of_offered ho hne ⟨h.kept, h.unqueued⟩
  rw [act]
  generalize l.sender.offer cfg.sender f = outcome at ho hkept hunqueued
  obtain ⟨result, s'⟩ := outcome
  by_cases htaken : ∃ encoded, result = .ok (some encoded)
  · obtain ⟨encoded, rfl⟩ := htaken
    have hencode := encode_of_offered ho
    refine h.extend hs.arrived_le [f] ?_ (by simp) ?_ ?_ ?_ ?_ ?_ ?_
    · rw [takeOffer_some l s' hencode]
      simp
    · rw [takeOffer_some l s' hencode]
    · intro g hg
      rw [List.mem_singleton.mp hg]
      exact hne.symm
    · rw [offersOf_takeOffer key s' hencode, if_neg (fun hc => hne hc.1.symm)]
    · rw [takeOffer_some l s' hencode]
      simpa using hkept
    · rw [takeOffer_some l s' hencode]
      simpa using hunqueued
    · rw [takeOffer_some l s' hencode]
      simp
  · have hnone : ∀ encoded, result ≠ .ok (some encoded) := fun encoded he => htaken ⟨encoded, he⟩
    rw [takeOffer_none l f s' hnone]
    exact h.extend hs.arrived_le [] rfl rfl (List.append_nil _).symm (by simp) rfl hkept
      hunqueued (fun r hr => hr)

/-- The next frame of the transaction is offered, or one is offered again. -/
theorem Live.offer_own (h : Live key l) (hs : Scripted l) {f : Frame} (hkey : f.key = key)
    (hgrammar : f ∈ l.offered ∨ Continues (l.offersOf f.key) f) (hroom : HasRoom cfg l.sender f) :
    Live key (l.act cfg (.offer f)) ∨ Lost key (l.act cfg (.offer f)) := by
  subst hkey
  have hheld : ∀ existing, l.sender.inflight.lookup f.frameKey = some existing →
      f.encode = .ok existing := by
    intro existing hlookup
    obtain ⟨g, hg, hgkey, hgencode⟩ := hs.held f.frameKey existing hlookup
    obtain ⟨hk, hsequence⟩ := Prod.mk.inj hgkey
    have hgmem : g ∈ l.offersOf f.key := mem_offersOf.mpr ⟨hg, hk⟩
    rcases hgrammar with hf | hcontinues
    · have heq := (hs.script f.key).sequence_unique h.unaborted hgmem
        (mem_offersOf.mpr ⟨hf, rfl⟩) hsequence
      rw [← heq]
      exact hgencode
    · exact absurd hsequence (hcontinues.1 g hgmem)
  rw [act]
  rcases offer_of_room hroom hheld with ⟨result, hnone, hoffer⟩ |
    ⟨encoded, s', hencode, hoffer, hlocal, haborts⟩
  · rw [hoffer, takeOffer_none l f l.sender hnone]
    exact Or.inl h
  · rw [hoffer]
    have hoffers := offersOf_takeOffer (l := l) f.key s' hencode
    by_cases hnew : f ∈ l.offered ∨ f.frameType ≠ .ABORT
    · left
      refine h.push hs.arrived_le rfl ?_ (by simp) ?_ ?_ ?_ ?_ ?_
      · rw [takeOffer_some l s' hencode]
        simp
      · rw [takeOffer_some l s' hencode]
      · by_cases hmem : f ∈ l.offered
        · rw [if_neg (fun hc => hc.2 hmem)] at hoffers
          exact Or.inl ⟨hoffers, mem_offersOf.mpr ⟨hmem, rfl⟩⟩
        · rw [if_pos ⟨rfl, hmem⟩] at hoffers
          exact Or.inr ⟨hoffers, hnew.resolve_left hmem⟩
      · rw [takeOffer_some l s' hencode]
        simpa [hlocal] using h.kept
      · rw [takeOffer_some l s' hencode]
        simpa [haborts] using h.unqueued
      · rw [takeOffer_some l s' hencode]
        simp
    · -- A new ABORT: nothing was committed, and no COMMIT can be offered any more.
      right
      obtain ⟨hmem, habort⟩ := not_or.mp hnew
      have habort := not_not.mp habort
      rw [if_pos ⟨rfl, hmem⟩] at hoffers
      have hunderway : Underway (l.offersOf f.key) := by
        rcases (hgrammar.resolve_left hmem).underway with ⟨hb, -⟩ | ⟨-, hunderway⟩
        · rw [habort] at hb
          cases hb
        · exact hunderway
      have hno : ∀ g ∈ l.offersOf f.key, g.frameType ≠ .COMMIT := by
        intro g hg hcommit
        have hplain := hunderway.2 g hg
        rw [hcommit] at hplain
        exact absurd hplain (by decide)
      refine ⟨?_, Or.inl ⟨⟨f, by rw [hoffers]; simp, habort⟩, ?_⟩⟩
      · rw [takeOffer_receiver, AList.lookup_eq_none]
        intro hc
        obtain ⟨g, hg, hcommit⟩ := h.commit_offered hc
        exact hno g hg hcommit
      · intro g hg
        rw [hoffers, List.mem_append, List.mem_singleton] at hg
        rcases hg with hg | rfl
        · exact hno g hg
        · rw [habort]
          decide

theorem Live.retransmit (h : Live key l) (hs : Scripted l) (index : ℕ) :
    Live key (l.act cfg (.retransmit index)) := by
  rw [act]
  split
  · rename_i encoded hindex
    have hmem := List.mem_of_getElem? hindex
    rw [Sender.retransmit, List.mem_reverse, List.mem_map] at hmem
    obtain ⟨e, he, rfl⟩ := hmem
    obtain ⟨f, hf, -, hencode⟩ := hs.held e.1 e.2 (AList.lookup_eq_some_iff.mpr he)
    have hsent : (l.transmit e.2).sent = l.sent ++ [f] := by
      rw [transmit, decodeWire_encode hencode]
    by_cases hkey : f.key = key
    · exact h.push hs.arrived_le hkey rfl rfl hsent (Or.inl ⟨rfl, mem_offersOf.mpr ⟨hf, hkey⟩⟩)
        h.kept h.unqueued (fun r hr => hr)
    · refine h.extend hs.arrived_le [f] rfl rfl hsent (fun g hg => ?_) rfl h.kept h.unqueued
        (fun r hr => hr)
      rw [List.mem_singleton.mp hg]
      exact hkey
  · exact h

theorem Live.sendAborts (h : Live key l) (hs : Scripted l) : Live key (l.act cfg .sendAborts) := by
  rw [act, foldl_transmit]
  refine h.extend hs.arrived_le (l.sender.takeBestEffortAborts.1.flatMap decodeWire) rfl
    rfl rfl ?_ rfl h.kept ?_ (fun r hr => hr)
  · intro f hf hkey
    obtain ⟨k, hk, rfl, -⟩ := queuedAborts hs.aborts hf
    have hkk : k = key := hkey
    rw [hkk] at hk
    exact h.unqueued hk
  · simp [Sender.takeBestEffortAborts]

/-! ## Deliveries -/

theorem expireInactive_of_unexpired {s : Receiver Time} {now : Time} (h : Unexpired cfg s now) :
    s.expireInactive cfg.receiver now = s := by
  unfold Receiver.expireInactive
  rw [AList.filter_of_forall fun e he => by rw [h e he]; rfl]

theorem receivedOf_deliver {l' : Link Time} {f : Frame} (hnext : l.next? = some f)
    (hsent : l'.sent = l.sent) (harrived : l'.arrived = l.arrived + 1) :
    l'.receivedOf key = if f.key = key then l.receivedOf key ++ [f] else l.receivedOf key := by
  unfold receivedOf
  rw [hsent, harrived, (take_arrived_succ hnext).2, filter_concat]
  by_cases hkey : f.key = key
  · rw [if_pos hkey, if_pos (by simpa using hkey)]
  · rw [if_neg hkey, if_neg (by simpa using hkey)]

theorem Live.arrives (h : Live key l) (hs : Scripted l) {f : Frame} (hnext : l.next? = some f)
    (hkey : f.key = key) : Receiver.Arrives (l.offersOf key) (l.receivedOf key) f where
  script := hs.script key
  live := h.unaborted
  received_mem := fun _ hg => h.ordered.mem (l.received_subset_sent hg)
  split := by
    have hsplit : l.sentOf key = l.receivedOf key ++
        f :: (l.sent.drop (l.arrived + 1)).filter fun f => f.key = key := by
      unfold sentOf receivedOf
      conv_lhs => rw [← List.take_append_drop (l.arrived + 1) l.sent]
      rw [(take_arrived_succ hnext).2, List.filter_append, filter_concat,
        if_pos (by simpa using hkey), List.append_assoc]
      rfl
    exact h.ordered _ f _ hsplit

/-- The parts of a live generation that a delivery does not touch. -/
theorem Live.delivered {l' : Link Time} (h : Live key l) (hoffered : l'.offered = l.offered)
    (hsent : l'.sent = l.sent) (hsender : l'.sender = l.sender)
    (hreplies : ∀ r ∈ l'.replies, r ∈ l.replies ∨
      (r.frame.key = key → r.frame.refuses = false))
    (hcurrent : Current key l'.receiver ∨ key ∈ l'.receiver.committed)
    (hprogress : Receiver.Progress key (l'.receivedOf key) l'.receiver) : Live key l' where
  unaborted := by
    unfold offersOf
    rw [hoffered]
    exact h.unaborted
  ordered := by
    unfold offersOf sentOf
    rw [hoffered, hsent]
    exact h.ordered
  all_sent := by
    unfold offersOf sentOf
    rw [hoffered, hsent]
    exact h.all_sent
  kept := by
    rw [hsender]
    exact h.kept
  unqueued := by
    rw [hsender]
    exact h.unqueued
  unrefused := by
    intro r hr
    rcases hreplies r hr with hr | hr
    · exact h.unrefused r hr
    · exact hr
  current := hcurrent
  progress := hprogress

theorem mem_repliesTo {answered : ℕ} {result : Except ReplicationError (Frame × Frame)}
    {r : Reply} (h : r ∈ repliesTo answered result) :
    ∃ ack credit, result = .ok (ack, credit) ∧ (r.frame = ack ∨ r.frame = credit) := by
  cases result with
  | error e => cases h
  | ok frames =>
      obtain ⟨ack, credit⟩ := frames
      refine ⟨ack, credit, rfl, ?_⟩
      rcases List.mem_cons.mp h with rfl | h
      · exact Or.inl rfl
      · rw [List.mem_singleton.mp h]
        exact Or.inr rfl

/-- A frame of the transaction arrives. -/
theorem Live.deliver_own (h : Live key l) (hs : Scripted l) {f : Frame}
    (hnext : l.next? = some f) (hkey : f.key = key) {now stamp : Time} {raises : Bool}
    (hp : Premises cfg l (.deliver now stamp raises))
    (hspared : Spared key l (.deliver now stamp raises)) :
    Live key (l.act cfg (.deliver now stamp raises)) ∧
      refusesAt cfg key l (.deliver now stamp raises) = false := by
  obtain ⟨hunexpired, hbound⟩ := hp
  obtain ⟨hreturns, hrepeat⟩ := hspared f hnext hkey
  have hcurrent : l.receiver.checkGeneration f = true := by
    rcases h.current with hcurrent | hcommitted
    · rw [checkGeneration_eq_true, hkey]
      exact hcurrent
    · exact (hrepeat hcommitted).2
  have hwithin := hbound f hnext hcurrent
  have hexpire := expireInactive_of_unexpired hunexpired
  have hencode := (hs.sent f (List.mem_of_getElem? hnext)).2
  have hchunk : l.receiver.committed.lookup key ≠ none → f.frameType ≠ .PUT_CHUNK := by
    intro hc
    rw [Ne, AList.lookup_eq_none, not_not] at hc
    exact (hrepeat hc).1
  obtain ⟨status, s', hhandle, hstatus, hprogress⟩ :=
    h.progress.handle (d := ⟨f, now, stamp, raises⟩) (h.arrives hs hnext hkey)
      hkey hencode hwithin hreturns hchunk
  rw [← hexpire] at hhandle
  have hreceive := Receiver.receive_handled (d := ⟨f, now, stamp, raises⟩) hcurrent hhandle
  have hreceived : (l.act cfg (.deliver now stamp raises)).receivedOf key =
      l.receivedOf key ++ [f] := by
    rw [receivedOf_deliver hnext, if_pos hkey]
    · simp [act, hnext]
    · simp [act, hnext]
  -- No newer generation is remembered after the frame's own effect.
  have hafter : Current key (s'.nextSequence.nextSequence) := by
    obtain ⟨s'', heffect, hs''⟩ := Receiver.receive_unexpired cfg.receiver ⟨f, now, stamp, raises⟩ hexpire
    rw [hreceive] at hs''
    dsimp only at hs''
    have hbefore : Current f.key l.receiver := checkGeneration_eq_true.mp hcurrent
    have hcurrent'' : Current key s'' := by
      rcases heffect with rfl | ⟨-, heffect⟩
      · rw [← hkey]
        exact hbefore
      · rw [← hkey]
        exact fun latest hlatest => heffect.own hwithin hbefore hlatest
    rcases hs'' with he | he
    · rw [he]
      exact hcurrent''
    · rw [he]
      exact hcurrent''
  constructor
  · refine h.delivered ?_ ?_ ?_ ?_ ?_ ?_
    · simp [act, hnext]
    · simp [act, hnext]
    · simp [act, hnext]
    · intro r hr
      simp only [act, hnext, hreceive, List.mem_append] at hr
      rcases hr with hr | hr
      · exact Or.inl hr
      · right
        intro _
        obtain ⟨ack, credit, hanswer, hframe⟩ := mem_repliesTo hr
        cases hanswer
        rcases hframe with hframe | hframe
        · rw [hframe]
          exact hstatus
        · rw [hframe]
          rfl
    · left
      simpa [act, hnext, hreceive] using hafter
    · rw [hreceived]
      simp only [act, hnext, hreceive]
      exact hprogress.congr rfl rfl
  · simp only [refusesAt, hnext, Option.any_some, hreceive, Bool.and_eq_false_iff]
    exact Or.inr hstatus

/-- A frame of another transaction arrives. -/
theorem Live.deliver_other (h : Live key l) (hs : Scripted l) {f : Frame}
    (hnext : l.next? = some f) (hne : f.key ≠ key) {now stamp : Time} {raises : Bool}
    (hp : Premises cfg l (.deliver now stamp raises)) :
    Live key (l.act cfg (.deliver now stamp raises)) ∨
      Lost key (l.act cfg (.deliver now stamp raises)) := by
  obtain ⟨hunexpired, hbound⟩ := hp
  have hexpire := expireInactive_of_unexpired hunexpired
  have hencode := (hs.sent f (List.mem_of_getElem? hnext)).2
  obtain ⟨s', heffect, hs'⟩ :=
    Receiver.receive_unexpired cfg.receiver ⟨f, now, stamp, raises⟩ hexpire
  have hactive : (l.act cfg (.deliver now stamp raises)).receiver.active = s'.active := by
    simp only [act, hnext]
    rcases hs' with he | he
    · rw [he]
    · rw [he]
      rfl
  have hcommitted : (l.act cfg (.deliver now stamp raises)).receiver.committed = s'.committed := by
    simp only [act, hnext]
    rcases hs' with he | he
    · rw [he]
    · rw [he]
      rfl
  have hlatest : (l.act cfg (.deliver now stamp raises)).receiver.latestGeneration =
      s'.latestGeneration := by
    simp only [act, hnext]
    rcases hs' with he | he
    · rw [he]
    · rw [he]
      rfl
  have hreceived : (l.act cfg (.deliver now stamp raises)).receivedOf key =
      l.receivedOf key := by
    rw [receivedOf_deliver hnext, if_neg hne]
    · simp [act, hnext]
    · simp [act, hnext]
  have hreplies : ∀ r ∈ (l.act cfg (.deliver now stamp raises)).replies, r ∈ l.replies ∨
      (r.frame.key = key → r.frame.refuses = false) := by
    intro r hr
    simp only [act, hnext, List.mem_append] at hr
    refine hr.imp_right fun hr hrkey => ?_
    obtain ⟨ack, credit, hanswer, hframe⟩ := mem_repliesTo hr
    obtain ⟨hack, hcredit⟩ := Receiver.receive_answers hanswer
    rcases hframe with hframe | hframe
    · rw [hframe, hack] at hrkey
      exact absurd hrkey hne
    · rw [hframe]
      exact hcredit
  -- What the effect does to this generation's entries.
  have hreceipts : s'.committed.lookup key = l.receiver.committed.lookup key := by
    rcases heffect with rfl | ⟨hcurrent, heffect⟩
    · rfl
    · cases hr : l.receiver.committed.lookup key with
      | none => exact heffect.new_receipt hr fun he => absurd he hne
      | some replica => exact heffect.keeps_receipts (hbound f hnext hcurrent) hr
  have hentries : (s'.active.lookup key = l.receiver.active.lookup key ∧
      s'.latestGeneration.lookup key.1 = l.receiver.latestGeneration.lookup key.1) ∨
      (s'.latestGeneration.lookup key.1 = some f.generation ∧
        (s'.active.lookup key = l.receiver.active.lookup key ∨ key.2 < f.generation ∧
          ∀ t, s'.active.lookup key = some t → l.receiver.active.lookup key = some t)) := by
    rcases heffect with rfl | ⟨hcurrent, heffect⟩
    · exact Or.inl ⟨rfl, rfl⟩
    · exact (heffect.other ⟨hbound f hnext hcurrent, hencode⟩ hne).imp_right And.right
  have hlive : s'.active.lookup key = l.receiver.active.lookup key →
      (Current key s' ∨ key ∈ l.receiver.committed) →
      Live key (l.act cfg (.deliver now stamp raises)) := by
    intro hsame hcurrent
    refine h.delivered ?_ ?_ ?_ hreplies ?_ ?_
    · simp [act, hnext]
    · simp [act, hnext]
    · simp [act, hnext]
    · rcases hcurrent with hcurrent | hin
      · left
        intro latest hl
        rw [hlatest] at hl
        exact hcurrent latest hl
      · right
        rw [hcommitted, ← AList.lookup_isSome, hreceipts, AList.lookup_isSome]
        exact hin
    · rw [hreceived]
      exact h.progress.congr (by rw [hcommitted, hreceipts]) (by rw [hactive, hsame])
  rcases hentries with ⟨hsame, hgeneration⟩ | ⟨hgeneration, hsame⟩
  · left
    refine hlive hsame (h.current.imp_left fun hcurrent latest hl => ?_)
    rw [hgeneration] at hl
    exact hcurrent latest hl
  · by_cases hin : key ∈ l.receiver.committed
    · left
      refine hlive ?_ (Or.inr hin)
      rcases hsame with hsame | ⟨-, hsame⟩
      · exact hsame
      · have hnone : l.receiver.active.lookup key = none := by
          rw [Option.eq_none_iff_forall_ne_some]
          intro t ht
          have huncommitted := (hs.accounts.begun key t ht).1
          exact (AList.lookup_eq_none.mp huncommitted) hin
        rw [hnone, Option.eq_none_iff_forall_ne_some]
        intro t ht
        have ht' := hsame t ht
        rw [hnone] at ht'
        cases ht'
    · by_cases hnewer : key.2 < f.generation
      · right
        refine ⟨?_, Or.inr ⟨f.generation, by rw [hlatest, hgeneration], hnewer⟩⟩
        rw [hcommitted, hreceipts]
        exact AList.lookup_eq_none.mpr hin
      · left
        refine hlive (hsame.resolve_right fun hc => hnewer hc.1) (Or.inl fun latest hl => ?_)
        rw [hgeneration] at hl
        cases hl
        exact Nat.le_of_not_lt hnewer

theorem Live.reply (h : Live key l) (hs : Scripted l) : Live key (l.act cfg .reply) := by
  rw [act]
  split
  · exact h
  · rename_i r rest hreplies
    have hsub : ∀ q ∈ rest, q ∈ l.replies := by
      intro q hq
      rw [hreplies]
      exact List.mem_cons_of_mem _ hq
    have hkeep : ∀ s' : Sender, key ∉ s'.localOnly ∧ key ∉ s'.bestEffortAborts →
        Live key { l with
          sender := s', replies := rest, basis := newBasis l.sender r l.basis } :=
      fun s' hs' => h.extend hs.arrived_le [] rfl rfl (List.append_nil _).symm (by simp)
        rfl hs'.1 hs'.2 hsub
    dsimp only
    split
    · have hack := l.sender.acknowledge_acknowledged cfg.sender r.frame
      generalize (l.sender.acknowledge cfg.sender r.frame).2 = s' at hack
      cases hack with
      | ignored => exact hkeep _ ⟨h.kept, h.unqueued⟩
      | released n status hf hgood => exact hkeep _ ⟨h.kept, h.unqueued⟩
      | degraded n status hf hbad hin s' hmarked =>
          -- The refusal is about another transaction.
          have hne : key ≠ r.frame.key := by
            intro he
            have hrefuses := h.unrefused r (by rw [hreplies]; simp) he.symm
            rw [Frame.refuses, hf] at hrefuses
            rcases hbad with rfl | rfl
            · cases hrefuses
            · cases hrefuses
          exact hkeep _ (not_mem_of_marked hmarked hne ⟨h.kept, h.unqueued⟩)
    · unfold Sender.applyCredit
      split
      · split
        · exact hkeep _ ⟨h.kept, h.unqueued⟩
        · exact hkeep _ ⟨h.kept, h.unqueued⟩
      · exact hkeep _ ⟨h.kept, h.unqueued⟩

theorem Live.act (h : Live key l) (hs : Scripted l) {a : Action Time} (hp : Premises cfg l a)
    (hspared : Spared key l a) : Live key (l.act cfg a) ∨ Lost key (l.act cfg a) := by
  cases a with
  | offer f =>
      by_cases hkey : f.key = key
      · rcases hp with hlocal | ⟨hgrammar, hroom⟩
        · rw [hkey] at hlocal
          exact absurd (of_decide_eq_true hlocal) h.kept
        · exact h.offer_own hs hkey hgrammar hroom
      · exact Or.inl (h.offer_other hs fun he => hkey he.symm)
  | retransmit index => exact Or.inl (h.retransmit hs index)
  | sendAborts => exact Or.inl (h.sendAborts hs)
  | deliver now stamp raises =>
      cases hnext : l.next? with
      | none =>
          rw [Link.act, hnext]
          exact Or.inl h
      | some f =>
          by_cases hkey : f.key = key
          · exact Or.inl (h.deliver_own hs hnext hkey hp hspared).1
          · exact h.deliver_other hs hnext hkey hp
  | expire now =>
      rw [Link.act, expireInactive_of_unexpired hp]
      exact Or.inl h
  | reply => exact Or.inl (h.reply hs)
  | lose => exact Or.inl { h with unrefused := fun r hr => h.unrefused r (List.mem_of_mem_tail hr) }

/-- What is delivered of a live generation is not refused. -/
theorem Live.not_refused (h : Live key l) (hs : Scripted l) {a : Action Time}
    (hp : Premises cfg l a) (hspared : Spared key l a) : refusesAt cfg key l a = false := by
  cases a with
  | deliver now stamp raises =>
      cases hnext : l.next? with
      | none => rw [refusesAt, hnext, Option.any_none]
      | some f =>
          by_cases hkey : f.key = key
          · exact (h.deliver_own hs hnext hkey hp hspared).2
          · rw [refusesAt, hnext, Option.any_some, decide_eq_false hkey, Bool.false_and]
  | _ => rfl

/-! ## A lost generation stays lost -/

theorem Lost.offer (h : Lost key l) {f : Frame} (hp : Premises cfg l (.offer f)) :
    Lost key (l.act cfg (.offer f)) := by
  have ho := l.sender.offer_offered cfg.sender f
  have hgiven := @abort_of_localOnly l.sender
  rw [act]
  generalize hres : l.sender.offer cfg.sender f = outcome at ho
  obtain ⟨result, s'⟩ := outcome
  obtain ⟨hcommitted, hreason⟩ := h
  refine ⟨by rw [takeOffer_receiver]; exact hcommitted, ?_⟩
  rcases hreason with ⟨⟨g, hg, habort⟩, hno⟩ | hstale
  · left
    by_cases htaken : ∃ encoded, result = .ok (some encoded)
    · obtain ⟨encoded, rfl⟩ := htaken
      rw [offersOf_takeOffer key s' (encode_of_offered ho)]
      split
      · rename_i hnew
        obtain ⟨hkey, hmem⟩ := hnew
        refine ⟨⟨g, List.mem_append_left _ hg, habort⟩, fun f' hf' hcommit => ?_⟩
        rw [List.mem_append, List.mem_singleton] at hf'
        rcases hf' with hf' | rfl
        · exact hno f' hf' hcommit
        · rcases hp with hlocal | ⟨hgrammar, -⟩
          · rw [hgiven hres hlocal] at hcommit
            cases hcommit
          · rcases (hgrammar.resolve_left hmem).underway with ⟨hb, -⟩ | ⟨-, hunderway⟩
            · rw [hcommit] at hb
              cases hb
            · have hplain := hunderway.2 g (by rw [hkey]; exact hg)
              rw [habort] at hplain
              exact absurd hplain (by decide)
      · exact ⟨⟨g, hg, habort⟩, hno⟩
    · rw [takeOffer_none l f s' fun encoded he => htaken ⟨encoded, he⟩]
      exact ⟨⟨g, hg, habort⟩, hno⟩
  · rw [takeOffer_receiver]
    exact Or.inr hstale

theorem Lost.deliver (h : Lost key l) (hs : Scripted l) {now stamp : Time} {raises : Bool}
    (hp : Premises cfg l (.deliver now stamp raises)) :
    Lost key (l.act cfg (.deliver now stamp raises)) := by
  rw [act]
  split
  · exact h
  · rename_i f hnext
    obtain ⟨hunexpired, hbound⟩ := hp
    have hexpire := expireInactive_of_unexpired hunexpired
    have horigin := (hs.sent f (List.mem_of_getElem? hnext)).1
    have hencode := (hs.sent f (List.mem_of_getElem? hnext)).2
    obtain ⟨s', heffect, hs'⟩ :=
      Receiver.receive_unexpired cfg.receiver ⟨f, now, stamp, raises⟩ hexpire
    obtain ⟨hcommitted, hreason⟩ := h
    have hstill : s'.committed.lookup key = none := by
      rcases heffect with rfl | ⟨hcurrent, heffect⟩
      · exact hcommitted
      · apply heffect.new_receipt hcommitted
        intro hkey hcommit
        have hkey : f.key = key := hkey
        rcases hreason with ⟨-, hno⟩ | ⟨latest, hlatest, hlt⟩
        · rcases horigin with hf | ⟨k, rfl⟩
          · exact hno f (mem_offersOf.mpr ⟨hf, hkey⟩) hcommit
          · cases hcommit
        · have hle := checkGeneration_eq_true.mp hcurrent latest (by rw [hkey]; exact hlatest)
          rw [hkey] at hle
          omega
    have hlost : Lost key { l with receiver := s' } := by
      refine ⟨hstill, ?_⟩
      rcases hreason with hreason | ⟨latest, hlatest, hlt⟩
      · exact Or.inl hreason
      · right
        rcases heffect with rfl | ⟨hcurrent, heffect⟩
        · exact ⟨latest, hlatest, hlt⟩
        · have hle := checkGeneration_eq_true.mp hcurrent
          by_cases hkey : f.key = key
          · rw [hkey] at hle
            exact absurd (hle latest hlatest) (Nat.not_le.mpr hlt)
          · rcases heffect.other ⟨hbound f hnext hcurrent, hencode⟩ hkey with
              ⟨-, hgeneration⟩ | ⟨hname, hgeneration, -⟩
            · exact ⟨latest, hgeneration.trans hlatest, hlt⟩
            · refine ⟨f.generation, hgeneration, hlt.trans_le (hle latest ?_)⟩
              rw [← hlatest, hname]
              rfl
    dsimp only
    rcases hs' with he | he
    · rw [he]
      exact hlost
    · rw [he]
      exact hlost

theorem Lost.act (h : Lost key l) (hs : Scripted l) {a : Action Time} (hp : Premises cfg l a) :
    Lost key (l.act cfg a) := by
  cases a with
  | offer f => exact h.offer hp
  | retransmit index =>
      rw [Link.act]
      split
      · exact h
      · exact h
  | sendAborts =>
      rw [Link.act, foldl_transmit]
      exact h
  | deliver now stamp raises => exact h.deliver hs hp
  | expire now => exact h
  | reply =>
      rw [Link.act]
      split
      · exact h
      · exact h
  | lose => exact h

/-- Within the bounds a commit record stays. -/
theorem committed_act {a : Action Time} (hp : Premises cfg l a)
    (h : key ∈ l.receiver.committed) : key ∈ (l.act cfg a).receiver.committed := by
  cases a with
  | offer f =>
      rw [act, takeOffer_receiver]
      exact h
  | retransmit index =>
      rw [act]
      split
      · exact h
      · exact h
  | sendAborts =>
      rw [act, foldl_transmit]
      exact h
  | deliver now stamp raises =>
      rw [act]
      split
      · exact h
      · rename_i f hnext
        obtain ⟨hunexpired, hbound⟩ := hp
        obtain ⟨s', heffect, hs'⟩ := Receiver.receive_unexpired cfg.receiver
          ⟨f, now, stamp, raises⟩ (expireInactive_of_unexpired hunexpired)
        obtain ⟨replica, hr⟩ := Option.isSome_iff_exists.mp (AList.lookup_isSome.mpr h)
        have hkept : key ∈ s'.committed := by
          rcases heffect with rfl | ⟨hcurrent, heffect⟩
          · exact h
          · rw [← AList.lookup_isSome, heffect.keeps_receipts (hbound f hnext hcurrent) hr]
            rfl
        dsimp only
        rcases hs' with he | he
        · rw [he]
          exact hkept
        · rw [he]
          exact hkept
  | expire now => exact h
  | reply =>
      rw [act]
      split
      · exact h
      · exact h
  | lose => exact h

/-! ## Runs -/

/-- In a run of whole transactions within the bounds, a BEGIN, COMMIT or ABORT of a committed
generation that is not stale is never refused. If no callback raises for the generation, and
after its commit neither a PUT_CHUNK nor a stale frame of it arrives, then none of its frames
is ever refused and the sender never marks it local-only. -/
theorem committed_kept (cfg : LinkConfig Time) (actions : List (Action Time))
    (h : Throughout cfg (Premises cfg) actions) (key : Key) :
    Throughout cfg (fun l a => key ∈ l.receiver.committed → Repeats l a →
        refusesAt cfg key l a = false) actions ∧
      (Throughout cfg (Spared key) actions →
        ∀ i, key ∈ (run cfg (actions.take i)).receiver.committed →
          Throughout cfg (fun l a => refusesAt cfg key l a = false) actions ∧
            ∀ j, key ∉ (run cfg (actions.take j)).sender.localOnly) := by
  have hstep : ∀ (l : Link Time) a, Scripted l → Premises cfg l a → Scripted (l.act cfg a) :=
    fun l a hs hp => hs.act a hp
  constructor
  · apply h.imp_of_invariant hstep _ Scripted.initial
    intro l a hs _ hcommitted hrepeats
    cases a with
    | deliver now stamp raises =>
        rw [refusesAt, Option.any_eq_false]
        intro f hnext
        rw [← Bool.not_eq_true, Bool.and_eq_true, decide_eq_true_eq]
        rintro ⟨rfl, hrefuses⟩
        obtain ⟨htype, hcurrent⟩ := hrepeats f hnext
        split at hrefuses
        · rename_i ack credit hanswer
          rw [hs.not_refused hnext hcommitted htype hcurrent now stamp raises hanswer] at hrefuses
          cases hrefuses
        · cases hrefuses
    | _ => rfl
  · intro hspared i hi
    have hend : key ∈ (run cfg actions).receiver.committed :=
      h.persists (K := fun l => key ∈ l.receiver.committed) hstep
        (fun l a _ hp hc => committed_act hp hc) Scripted.initial hi
    have hlive : ∀ actions', Throughout cfg (Premises cfg) actions' →
        Throughout cfg (Spared key) actions' → ¬ Lost key (run cfg actions') →
        Throughout cfg (fun l a => refusesAt cfg key l a = false) actions' ∧
          (Scripted (run cfg actions') ∧ Live key (run cfg actions')) := by
      intro actions' hp hsp hnot
      apply (hp.and hsp).imp_of_survives (I := fun l => Scripted l ∧ Live key l)
        (F := fun l => Scripted l ∧ Lost key l)
      · rintro l a ⟨hs, hl⟩ ⟨hp, hsp⟩
        exact (hl.act hs hp hsp).imp (fun hl => ⟨hs.act a hp, hl⟩) (fun hl => ⟨hs.act a hp, hl⟩)
      · rintro l a ⟨hs, hl⟩ ⟨hp, -⟩
        exact ⟨hs.act a hp, hl.act hs hp⟩
      · rintro l a ⟨hs, hl⟩ ⟨hp, hsp⟩
        exact hl.not_refused hs hp hsp
      · exact ⟨Scripted.initial, Live.initial⟩
      · exact fun hc => hnot hc.2
    have hnot : ¬ Lost key (run cfg actions) :=
      fun hc => (AList.lookup_eq_none.mp hc.1) hend
    refine ⟨(hlive actions h hspared hnot).1, fun j => ?_⟩
    have hnotj : ¬ Lost key (run cfg (actions.take j)) := fun hc =>
      hnot (h.persists (K := Lost key) hstep (fun l a hs hp hl => hl.act hs hp)
        Scripted.initial hc)
    exact (hlive (actions.take j) (h.take j) (hspared.take j) hnotj).2.2.kept

/-! ## Three ways out -/

section Samples

def sampleKey : Key := (sampleTransaction 49 isHexCode_one, 1)

/-- The commit record of a transaction of one chunk. -/
def sampleRecord : Bytes :=
  ((CommitRecord.mk (sampleTransaction 49 isHexCode_one) 1 zeroDigest [sha256 [97]]).encode.toOption).getD []

def sampleCommit : Frame :=
  { transactionId := sampleTransaction 49 isHexCode_one
    generation := 1
    sequence := 2
    fields := .commit (sha256 sampleRecord) 1
    payload := sampleRecord
    valid := by decide +kernel }

/-- A frame is offered and arrives. -/
def arrive (f : Frame) : List (Action ℕ) := [.offer f, .deliver 0 0 false]

/-- Frame `index` of the window is sent again and arrives. -/
def arriveAgain (index : ℕ) : List (Action ℕ) := [.retransmit index, .deliver 0 0 false]

def answered : List (Action ℕ) := [.reply, .reply]

def unanswered : List (Action ℕ) := [.lose, .lose]

/-- The whole transaction, with the ACKs of its last two frames lost. -/
def committing : List (Action ℕ) :=
  arrive (sampleBegin (sampleTransaction 49 isHexCode_one)) ++ answered ++
    arrive (samplePut (sampleTransaction 49 isHexCode_one) 0 97) ++ unanswered ++ arrive sampleCommit ++
    unanswered

/-- Its chunk is sent again. -/
def chunkAgain : List (Action ℕ) := committing ++ arriveAgain 0 ++ answered

/-- Its COMMIT is sent again after the next generation began. -/
def superseding : List (Action ℕ) :=
  committing ++ arrive { sampleBegin (sampleTransaction 49 isHexCode_one) with generation := 2 } ++
    answered ++ arriveAgain 1 ++ answered

/-- `on_commit` raises once, and everything is sent again before the ACK that says so. -/
def raising : List (Action ℕ) :=
  arrive (sampleBegin (sampleTransaction 49 isHexCode_one)) ++ [.lose, .reply] ++
    arrive (samplePut (sampleTransaction 49 isHexCode_one) 0 97) ++ unanswered ++
    [.offer sampleCommit, .deliver 0 0 true] ++ arriveAgain 0 ++ arriveAgain 1 ++ arriveAgain 2 ++
    answered

/-- What one would want of every run within the bounds. -/
def Kept (cfg : LinkConfig Time) (key : Key) (actions : List (Action Time)) : Prop :=
  Throughout cfg (fun l a => key ∈ l.receiver.committed → refusesAt cfg key l a = false) actions ∧
    ∀ i j, key ∈ (run cfg (actions.take i)).receiver.committed →
      key ∉ (run cfg (actions.take j)).sender.localOnly

theorem not_kept {cfg : LinkConfig Time} {key : Key} {actions : List (Action Time)}
    (hc : key ∈ (run cfg actions).receiver.committed)
    (hl : key ∈ (run cfg actions).sender.localOnly) : ¬ Kept cfg key actions := by
  intro h
  have hend := h.2 actions.length actions.length
  rw [List.take_length] at hend
  exact hend hc hl

/-- A stale COMMIT, a repeated chunk and a callback that raised each end in local-only for a
committed generation. -/
theorem committed_not_kept :
    (Throughout narrowLink (Premises narrowLink) superseding ∧
        ¬ Kept narrowLink sampleKey superseding) ∧
      (Throughout narrowLink (Premises narrowLink) chunkAgain ∧
        ¬ Kept narrowLink sampleKey chunkAgain) ∧
      (Throughout narrowLink (Premises narrowLink) raising ∧
        ¬ Kept narrowLink sampleKey raising) := by
  have hstale : Throughout narrowLink (Premises narrowLink) superseding ∧
      sampleKey ∈ (run narrowLink superseding).receiver.committed ∧
      sampleKey ∈ (run narrowLink superseding).sender.localOnly := by decide +kernel
  have hchunk : Throughout narrowLink (Premises narrowLink) chunkAgain ∧
      sampleKey ∈ (run narrowLink chunkAgain).receiver.committed ∧
      sampleKey ∈ (run narrowLink chunkAgain).sender.localOnly := by decide +kernel
  have hraises : Throughout narrowLink (Premises narrowLink) raising ∧
      sampleKey ∈ (run narrowLink raising).receiver.committed ∧
      sampleKey ∈ (run narrowLink raising).sender.localOnly := by decide +kernel
  exact ⟨⟨hstale.1, not_kept hstale.2.1 hstale.2.2⟩, ⟨hchunk.1, not_kept hchunk.2.1 hchunk.2.2⟩,
    ⟨hraises.1, not_kept hraises.2.1 hraises.2.2⟩⟩

/-- Its COMMIT is sent again. -/
def commitAgain : List (Action ℕ) := committing ++ arriveAgain 1 ++ answered

theorem committed_kept_commitAgain :
    Throughout narrowLink (fun l a => refusesAt narrowLink sampleKey l a = false) commitAgain ∧
      sampleKey ∉ (run narrowLink (commitAgain.take 18)).sender.localOnly := by
  have hrun : Throughout narrowLink (Premises narrowLink) commitAgain ∧
      Throughout narrowLink (Spared sampleKey) commitAgain ∧
      sampleKey ∈ (run narrowLink (commitAgain.take 14)).receiver.committed := by decide +kernel
  have h := (committed_kept narrowLink commitAgain hrun.1 sampleKey).2 hrun.2.1 14 hrun.2.2
  exact ⟨h.1, h.2 18⟩

end Samples

end SparkCache.Replication.Link
