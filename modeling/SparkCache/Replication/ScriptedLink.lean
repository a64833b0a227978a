import SparkCache.Replication.Link
import SparkCache.Replication.Accounts

/-!
# Transactions on one connection

The premises under which a connection carries whole transactions, and where the
frames on the channel, in the window and behind the receiver's tables come from
in a run that keeps them.
-/
namespace SparkCache.Replication.Link
variable {Time : Type*}

/-- What was offered for one transaction. -/
def offersOf (l : Link Time) (key : Key) : List Frame := l.offered.filter fun f => f.key = key

def sentOf (l : Link Time) (key : Key) : List Frame := l.sent.filter fun f => f.key = key

def receivedOf (l : Link Time) (key : Key) : List Frame :=
  (l.sent.take l.arrived).filter fun f => f.key = key

section Premises
variable (cfg : LinkConfig Time)

/-- `offer` does not reach a bound of the window or of the credit. -/
def HasRoom (s : Sender) (f : Frame) : Prop :=
  f.frameKey ∈ s.inflight ∨
    (s.inflightFrames + 1 ≤ cfg.sender.maxInflightFrames ∧
      (∀ encoded ∈ f.encode.toOption,
        s.inflightBytes + encoded.length ≤ cfg.sender.maxInflightBytes) ∧
      (f.frameType = .PUT_CHUNK → 1 ≤ s.availableFrames ∧ f.payload.length ≤ s.availableBytes))

/-- No open transaction is past its TTL. -/
def Unexpired (s : Receiver Time) (now : Time) : Prop :=
  ∀ e ∈ s.active.entries, cfg.receiver.expired now e.2.lastActivity = false

/-- Every transaction follows the grammar, and no bound, TTL or digest failure occurs. -/
def Premises (l : Link Time) : Action Time → Prop
  | .offer f => l.sender.isLocalOnly f.key = true ∨
      ((f ∈ l.offered ∨ Continues (l.offersOf f.key) f) ∧ HasRoom cfg l.sender f)
  | .deliver now _ _ => Unexpired cfg l.receiver now ∧ ∀ f ∈ l.next?,
      l.receiver.checkGeneration f = true → l.receiver.exceedsBound cfg.receiver f = false
  | .expire now => Unexpired cfg l.receiver now
  | _ => True

/-- No callback raises on a frame of the transaction, and what arrives of it after its commit
is no PUT_CHUNK and not stale. -/
def Spared (key : Key) (l : Link Time) : Action Time → Prop
  | .deliver _ _ raises => ∀ f ∈ l.next?, f.key = key → raises = false ∧
      (key ∈ l.receiver.committed →
        f.frameType ≠ .PUT_CHUNK ∧ l.receiver.checkGeneration f = true)
  | _ => True

/-- The frame that arrives is no PUT_CHUNK and not stale. -/
def Repeats (l : Link Time) : Action Time → Prop
  | .deliver .. => ∀ f ∈ l.next?,
      f.frameType ≠ .PUT_CHUNK ∧ l.receiver.checkGeneration f = true
  | _ => True

/-- A frame of the transaction arrives and is answered "rejected" or "aborted". -/
def refusesAt (key : Key) (l : Link Time) : Action Time → Bool
  | .deliver now stamp raises => l.next?.any fun f => f.key = key &&
      match (l.receiver.receive cfg.receiver ⟨f, now, stamp, raises⟩).1 with
      | .ok (ack, _) => ack.refuses
      | .error _ => false
  | _ => false

instance (s : Sender) (f : Frame) : Decidable (HasRoom cfg s f) :=
  inferInstanceAs (Decidable (_ ∨ (_ ∧ _ ∧ _)))

instance (s : Receiver Time) (now : Time) : Decidable (Unexpired cfg s now) :=
  inferInstanceAs (Decidable (∀ e ∈ s.active.entries, _))

instance (l : Link Time) : (a : Action Time) → Decidable (Premises cfg l a)
  | .offer _ => inferInstanceAs (Decidable (_ ∨ ((_ ∨ _) ∧ _)))
  | .deliver .. => inferInstanceAs (Decidable (_ ∧ ∀ f ∈ _, _ → _))
  | .expire now => inferInstanceAs (Decidable (Unexpired cfg l.receiver now))
  | .retransmit _ | .sendAborts | .reply | .lose => isTrue trivial

instance (key : Key) (l : Link Time) : (a : Action Time) → Decidable (Spared key l a)
  | .deliver .. => inferInstanceAs (Decidable (∀ f ∈ _, _ → _ ∧ (_ → _ ∧ _)))
  | .offer _ | .retransmit _ | .sendAborts | .expire _ | .reply | .lose => isTrue trivial

end Premises

/-! ## Where frames come from -/

/-- The queued ABORTs are the reserved frames of their transactions. -/
def AbortsReserved (s : Sender) : Prop :=
  ∀ key encoded, s.bestEffortAborts.lookup key = some encoded →
    (Sender.abortFrame key).encode = .ok encoded

structure Scripted (l : Link Time) : Prop where
  arrived_le : l.arrived ≤ l.sent.length
  script : ∀ key, Script (l.offersOf key)
  sent : ∀ f ∈ l.sent, (f ∈ l.offered ∨ ∃ key, f = Sender.abortFrame key) ∧
    ∃ encoded, f.encode = .ok encoded
  held : ∀ frameKey encoded, l.sender.inflight.lookup frameKey = some encoded →
    ∃ f ∈ l.offered, f.frameKey = frameKey ∧ f.encode = .ok encoded
  aborts : AbortsReserved l.sender
  accounts : Receiver.Accounts l.offered l.receiver

theorem Scripted.initial : Scripted (Link.initial : Link Time) where
  arrived_le := Nat.zero_le _
  script := fun _ => .nil
  sent := by simp [Link.initial]
  held := by simp [Link.initial, Sender.initial]
  aborts := by simp [AbortsReserved, Link.initial, Sender.initial]
  accounts := by constructor <;> simp [Link.initial, Receiver.initial]

theorem mem_offersOf {l : Link Time} {key : Key} {f : Frame} :
    f ∈ l.offersOf key ↔ f ∈ l.offered ∧ f.key = key := by
  simp [offersOf]

variable {cfg : LinkConfig Time} {key : Key} {l : Link Time}

/-- `offer` with room takes the frame or changes nothing. -/
theorem offer_of_room {s : Sender} {f : Frame} (hroom : HasRoom cfg s f)
    (hheld : ∀ existing, s.inflight.lookup f.frameKey = some existing →
      f.encode = .ok existing) :
    (∃ result, (∀ encoded, result ≠ .ok (some encoded)) ∧
        s.offer cfg.sender f = (result, s)) ∨
      ∃ encoded s', f.encode = .ok encoded ∧ s.offer cfg.sender f = (.ok (some encoded), s') ∧
        s'.localOnly = s.localOnly ∧ s'.bestEffortAborts = s.bestEffortAborts := by
  unfold Sender.offer
  split
  · exact Or.inl ⟨_, (fun encoded h => by cases h), rfl⟩
  split
  · exact Or.inl ⟨_, (fun encoded h => by cases h), rfl⟩
  split
  · exact Or.inl ⟨_, (fun encoded h => by cases h), rfl⟩
  · rename_i encoded hencode
    right
    split
    · rename_i existing hexisting
      have hsame := hheld existing hexisting
      rw [hencode] at hsame
      cases hsame
      rw [if_pos rfl]
      exact ⟨encoded, s, hencode, rfl, rfl, rfl⟩
    · rename_i hnew
      obtain ⟨hframes, hbytes, hcredit⟩ := hroom.resolve_left (AList.lookup_eq_none.mp hnew)
      have hlength := hbytes encoded (by rw [hencode]; rfl)
      rw [if_neg (by omega)]
      split
      · rename_i hchunk
        have hwindow := hcredit hchunk
        rw [if_neg (by omega)]
        exact ⟨encoded, _, hencode, rfl, rfl, rfl⟩
      · exact ⟨encoded, _, hencode, rfl, rfl, rfl⟩

/-- A step of the sender that puts frames on the channel. -/
theorem Scripted.extend {l' : Link Time} (h : Scripted l) (more : List Frame)
    (harrived : l'.arrived = l.arrived) (hreceiver : l'.receiver = l.receiver)
    (hsent : l'.sent = l.sent ++ more) (hoffered : ∀ f ∈ l.offered, f ∈ l'.offered)
    (hscript : ∀ key, Script (l'.offersOf key))
    (hmore : ∀ f ∈ more, (f ∈ l'.offered ∨ ∃ key, f = Sender.abortFrame key) ∧
      ∃ encoded, f.encode = .ok encoded)
    (hheld : ∀ frameKey encoded, l'.sender.inflight.lookup frameKey = some encoded →
      l.sender.inflight.lookup frameKey = some encoded ∨
        ∃ f ∈ l'.offered, f.frameKey = frameKey ∧ f.encode = .ok encoded)
    (haborts : AbortsReserved l'.sender) : Scripted l' where
  arrived_le := by
    rw [harrived, hsent, List.length_append]
    exact Nat.le_add_right_of_le h.arrived_le
  script := hscript
  sent := by
    intro f hf
    rw [hsent] at hf
    rcases List.mem_append.mp hf with hf | hf
    · obtain ⟨horigin, hencode⟩ := h.sent f hf
      exact ⟨horigin.imp_left (hoffered f), hencode⟩
    · exact hmore f hf
  held := by
    intro frameKey encoded hlookup
    rcases hheld frameKey encoded hlookup with hlookup | hnew
    · obtain ⟨f, hf, hspec⟩ := h.held frameKey encoded hlookup
      exact ⟨f, hoffered f hf, hspec⟩
    · exact hnew
  aborts := haborts
  accounts := by
    rw [hreceiver]
    exact h.accounts.mono hoffered

/-- The offers after `offer` took a frame. -/
theorem takeOffer_offered {f : Frame} {encoded : Bytes} (s : Sender) (h : f.encode = .ok encoded) :
    (l.takeOffer f (.ok (some encoded), s)).offered =
      if f ∈ l.offered then l.offered else l.offered ++ [f] := by
  rw [takeOffer_some l s h]
  unfold logOffer
  split <;> rfl

theorem AbortsReserved.marked {s s' : Sender} {c : SenderConfig} (h : AbortsReserved s)
    (hs : Sender.MarkedLocalOnly c s key s') : AbortsReserved s' := by
  intro k encoded hk
  rcases hs.aborts with he | ⟨e, hencode, he⟩
  · rw [he] at hk
    exact h k encoded hk
  · rw [he] at hk
    rcases AList.lookup_insert_some hk with ⟨rfl, rfl⟩ | ⟨-, hk⟩
    · exact hencode
    · exact h k encoded hk

theorem AbortsReserved.offered {s : Sender} {f : Frame} {c : SenderConfig}
    {outcome : Except ReplicationError (Option Bytes) × Sender} (h : AbortsReserved s)
    (ho : Sender.Offered c s f outcome) : AbortsReserved outcome.2 := by
  cases ho with
  | refused result hr => exact h
  | degraded result s' hr hs => exact h.marked hs
  | again e hencode he => exact h
  | chunk e hencode he htype hframes hbytes => exact h
  | control e hencode he htype => exact h

/-- What is new in the window is the frame that `offer` returned. -/
theorem held_of_offered {s : Sender} {f : Frame} {c : SenderConfig}
    {outcome : Except ReplicationError (Option Bytes) × Sender} (h : Sender.Offered c s f outcome)
    {frameKey : FrameKey} {encoded : Bytes}
    (hlookup : outcome.2.inflight.lookup frameKey = some encoded) :
    s.inflight.lookup frameKey = some encoded ∨
      (f.frameKey = frameKey ∧ f.encode = .ok encoded ∧ outcome.1 = .ok (some encoded)) := by
  cases h with
  | refused result h => exact Or.inl hlookup
  | degraded result s' h hs =>
      rw [hs.inflight] at hlookup
      exact Or.inl (AList.lookup_filter_some hlookup)
  | again e hencode he => exact Or.inl hlookup
  | chunk e hencode he htype hframes hbytes =>
      rcases AList.lookup_insert_some hlookup with ⟨rfl, rfl⟩ | ⟨-, hl⟩
      · exact Or.inr ⟨rfl, hencode, rfl⟩
      · exact Or.inl hl
  | control e hencode he htype =>
      rcases AList.lookup_insert_some hlookup with ⟨rfl, rfl⟩ | ⟨-, hl⟩
      · exact Or.inr ⟨rfl, hencode, rfl⟩
      · exact Or.inl hl

theorem encode_of_offered {s s' : Sender} {f : Frame} {c : SenderConfig} {encoded : Bytes}
    (h : Sender.Offered c s f (.ok (some encoded), s')) : f.encode = .ok encoded := by
  generalize houtcome : (Except.ok (some encoded), s') = outcome at h
  cases h with
  | refused result h => exact absurd (congrArg Prod.fst houtcome).symm (h encoded)
  | degraded result s' h hs => exact absurd (congrArg Prod.fst houtcome).symm (h encoded)
  | again e hencode he =>
      cases houtcome
      exact hencode
  | chunk e hencode he htype hframes hbytes =>
      cases houtcome
      exact hencode
  | control e hencode he htype =>
      cases houtcome
      exact hencode

/-- A transaction that was given up gets nothing but its ABORT through. -/
theorem abort_of_localOnly {s s' : Sender} {f : Frame} {c : SenderConfig} {encoded : Bytes}
    (h : s.offer c f = (.ok (some encoded), s')) (hlocal : s.isLocalOnly f.key = true) :
    f.frameType = .ABORT := by
  by_contra hne
  unfold Sender.offer at h
  split at h
  · cases h
  · rw [if_pos ⟨hlocal, hne⟩] at h
    cases h

theorem filter_concat {p : Frame → Bool} (frames : List Frame) (f : Frame) :
    (frames ++ [f]).filter p = if p f then frames.filter p ++ [f] else frames.filter p := by
  rw [List.filter_append, List.filter_singleton]
  cases p f <;> simp

theorem Scripted.offer (h : Scripted l) (f : Frame) (hp : Premises cfg l (.offer f)) :
    Scripted (l.act cfg (.offer f)) := by
  have ho := l.sender.offer_offered cfg.sender f
  have haborts := AbortsReserved.offered h.aborts ho
  have hheld := @held_of_offered l.sender f cfg.sender _ ho
  have hgiven := @abort_of_localOnly l.sender
  rw [act]
  generalize hres : l.sender.offer cfg.sender f = outcome at ho haborts hheld
  obtain ⟨result, s'⟩ := outcome
  by_cases htaken : ∃ encoded, result = .ok (some encoded)
  · obtain ⟨encoded, rfl⟩ := htaken
    have hencode := encode_of_offered ho
    have hoffered := takeOffer_offered (l := l) s' hencode
    have hmem : f ∈ (l.takeOffer f (.ok (some encoded), s')).offered := by
      rw [hoffered]
      split
      · assumption
      · simp
    have hsub : ∀ g ∈ l.offered, g ∈ (l.takeOffer f (.ok (some encoded), s')).offered := by
      intro g hg
      rw [hoffered]
      split
      · exact hg
      · exact List.mem_append_left _ hg
    refine h.extend [f] ?_ ?_ ?_ hsub
      ?_ ?_ ?_ ?_
    · rw [takeOffer_some l s' hencode]
      simp
    · simp
    · rw [takeOffer_some l s' hencode]
    · intro key
      unfold offersOf
      rw [hoffered]
      split
      · exact h.script key
      · rename_i hnew
        rw [filter_concat]
        split
        · rename_i hkey
          have hkey : f.key = key := of_decide_eq_true hkey
          subst hkey
          rcases hp with hlocal | ⟨hold | hcontinues, -⟩
          · exact .giveUp _ f (h.script f.key) (hgiven hres hlocal)
          · exact absurd hold hnew
          · exact .next _ f (h.script f.key) hcontinues
        · exact h.script key
    · intro g hg
      rw [List.mem_singleton.mp hg]
      exact ⟨Or.inl hmem, encoded, hencode⟩
    · rw [takeOffer_some l s' hencode]
      intro frameKey e hlookup
      rw [takeOffer_some l s' hencode] at hmem
      simp only [logOffer_sender] at hlookup
      exact (hheld hlookup).imp_right fun hnew => ⟨f, hmem, hnew.1, hnew.2.1⟩
    · rw [takeOffer_some l s' hencode]
      simp only [logOffer_sender]
      exact haborts
  · have hnone : ∀ encoded, result ≠ .ok (some encoded) := fun encoded he => htaken ⟨encoded, he⟩
    rw [takeOffer_none l f s' hnone]
    refine h.extend [] rfl rfl (List.append_nil _).symm (fun g hg => hg) h.script
      (by simp) ?_ haborts
    intro frameKey e hlookup
    exact (hheld hlookup).imp_right fun hnew => absurd hnew.2.2 (hnone e)

theorem Scripted.retransmit (h : Scripted l) (index : ℕ) :
    Scripted (l.act cfg (.retransmit index)) := by
  rw [act]
  split
  · rename_i encoded hindex
    have hmem := List.mem_of_getElem? hindex
    rw [Sender.retransmit, List.mem_reverse, List.mem_map] at hmem
    obtain ⟨e, he, rfl⟩ := hmem
    obtain ⟨f, hf, hkey, hencode⟩ := h.held e.1 e.2 (AList.lookup_eq_some_iff.mpr he)
    have hsent : (l.transmit e.2).sent = l.sent ++ [f] := by
      rw [transmit, decodeWire_encode hencode]
    refine h.extend [f] rfl rfl hsent (fun g hg => hg) h.script ?_ (fun _ _ => Or.inl)
      h.aborts
    intro g hg
    rw [List.mem_singleton.mp hg]
    exact ⟨Or.inl hf, e.2, hencode⟩
  · exact h

/-- The frames of `take_best_effort_aborts`. -/
theorem queuedAborts (h : AbortsReserved l.sender) {f : Frame}
    (hf : f ∈ l.sender.takeBestEffortAborts.1.flatMap decodeWire) :
    ∃ key ∈ l.sender.bestEffortAborts, f = Sender.abortFrame key ∧
      ∃ encoded, f.encode = .ok encoded := by
  obtain ⟨encoded, hmem, hf⟩ := List.mem_flatMap.mp hf
  rw [Sender.takeBestEffortAborts, List.mem_reverse, List.mem_map] at hmem
  obtain ⟨e, he, rfl⟩ := hmem
  have hlookup := AList.lookup_eq_some_iff.mpr he
  have hencode := h e.1 e.2 hlookup
  rw [decodeWire_encode hencode, List.mem_singleton] at hf
  refine ⟨e.1, ?_, hf, e.2, by rw [hf]; exact hencode⟩
  rw [← AList.lookup_isSome, hlookup]
  rfl

theorem Scripted.sendAborts (h : Scripted l) : Scripted (l.act cfg .sendAborts) := by
  rw [act, foldl_transmit]
  refine h.extend (l.sender.takeBestEffortAborts.1.flatMap decodeWire) rfl rfl rfl
    (fun g hg => hg) h.script ?_ (fun _ _ => Or.inl) ?_
  · intro f hf
    obtain ⟨key, -, hfkey, hencode⟩ := queuedAborts h.aborts hf
    exact ⟨Or.inr ⟨key, hfkey⟩, hencode⟩
  · intro key encoded hlookup
    simp [Sender.takeBestEffortAborts] at hlookup

theorem Scripted.deliver (h : Scripted l) (now stamp : Time) (raises : Bool) :
    Scripted (l.act cfg (.deliver now stamp raises)) := by
  rw [act]
  split
  · exact h
  · rename_i f hnext
    have hlt := (List.getElem?_eq_some_iff.mp hnext).1
    refine
      { arrived_le := hlt, script := h.script, sent := h.sent, held := h.held,
        aborts := h.aborts, accounts := h.accounts.receive _ ?_ }
    intro htype
    rcases (h.sent f (List.mem_of_getElem? hnext)).1 with hf | ⟨key, rfl⟩
    · exact hf
    · exact absurd rfl htype

theorem Scripted.reply (h : Scripted l) : Scripted (l.act cfg .reply) := by
  rw [act]
  split
  · exact h
  · rename_i r rest hreplies
    have hkeep : ∀ s' : Sender, (∀ frameKey encoded, s'.inflight.lookup frameKey = some encoded →
        l.sender.inflight.lookup frameKey = some encoded) → AbortsReserved s' →
        Scripted { l with
          sender := s', replies := rest, basis := newBasis l.sender r l.basis } := by
      intro s' hheld haborts
      exact h.extend [] rfl rfl (List.append_nil _).symm (fun g hg => hg) h.script
        (by simp) (fun frameKey encoded hl => Or.inl (hheld frameKey encoded hl)) haborts
    dsimp only
    split
    · have hack := l.sender.acknowledge_acknowledged cfg.sender r.frame
      generalize (l.sender.acknowledge cfg.sender r.frame).2 = s' at hack
      cases hack with
      | ignored => exact hkeep _ (fun _ _ hl => hl) h.aborts
      | released n status hf hgood =>
          exact hkeep _ (fun _ _ hl => (AList.lookup_erase_some hl).2) h.aborts
      | degraded n status hf hbad hin s' hs =>
          have haborts : AbortsReserved
              { l.sender with inflight := l.sender.inflight.erase (r.frame.key, n) } := h.aborts
          refine hkeep _ (fun frameKey encoded hl => ?_) (haborts.marked hs)
          rw [hs.inflight] at hl
          exact (AList.lookup_erase_some (AList.lookup_filter_some hl)).2
    · unfold Sender.applyCredit
      split
      · split
        · exact hkeep _ (fun _ _ hl => hl) h.aborts
        · exact hkeep _ (fun _ _ hl => hl) h.aborts
      · exact hkeep _ (fun _ _ hl => hl) h.aborts

theorem Scripted.act (h : Scripted l) (a : Action Time) (hp : Premises cfg l a) :
    Scripted (l.act cfg a) := by
  cases a with
  | offer f => exact h.offer f hp
  | retransmit index => exact h.retransmit index
  | sendAborts => exact h.sendAborts
  | deliver now stamp raises => exact h.deliver now stamp raises
  | expire now => exact { h with accounts := h.accounts.expireInactive now }
  | reply => exact h.reply
  | lose => exact { h with }

end SparkCache.Replication.Link
