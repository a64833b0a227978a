import SparkCache.RowStream.RingTickets

/-!
# Runs of a snapshot ring

What every call keeps: the ring is usable, every tracked ticket fits the slots, and no two submissions
share a ticket. A ticket that has been retired is tracked under no key again.
-/
namespace SparkCache.RowStream
namespace NativeSnapshotRing
open Store SnapshotHandle

variable {config : NativeRingConfig} {inventory : SourceInventory config} {r : NativeSnapshotRing}
  {owned : OwnedTicket} {key : ℕ × ℕ}

structure Sound (inventory : SourceInventory config) (r : NativeSnapshotRing) : Prop where
  usable : r.poisoned = none
  slotCount : r.handle.ring.slotCount = config.slotCount
  keyed : ∀ {key owned}, r.tickets.lookup key = some owned → key = owned.ticket.key
  fits : ∀ {key owned}, r.tickets.lookup key = some owned → Fits inventory r.handle owned
  issued : ∀ {key owned}, r.tickets.lookup key = some owned → owned.ticket.identity < r.issued
  single : ∀ {key key' owned owned'}, r.tickets.lookup key = some owned → r.tickets.lookup key' = some owned' →
    owned.ticket.identity = owned'.ticket.identity → key = key'
  retired : ∀ t ∈ r.retired, t.identity < r.issued ∧
    ∀ {key owned}, r.tickets.lookup key = some owned → owned.ticket.identity ≠ t.identity
  bounded : r.tickets.size ≤ config.slotCount

theorem new_sound (inventory : SourceInventory config) : Sound inventory (new inventory) where
  usable := rfl
  slotCount := rfl
  keyed h := by cases h
  fits h := by cases h
  issued h := by cases h
  single h := by cases h
  retired t ht := absurd ht List.not_mem_nil
  bounded := Nat.zero_le _

theorem raw_ne {t t' : SnapshotTicket} (hne : t.key ≠ t'.key) : t.raw ≠ t'.raw := by
  intro heq
  injection heq with hgeneration hindex
  exact hne (by rw [SnapshotTicket.key, SnapshotTicket.key, hgeneration, hindex])

namespace Sound
variable {h' : SnapshotHandle}

theorem raw_ne (h : Sound inventory r) {key' : ℕ × ℕ} {owned' : OwnedTicket} (hlookup : r.tickets.lookup key = some owned)
    (hlookup' : r.tickets.lookup key' = some owned') (hne : key' ≠ key) : owned'.ticket.raw ≠ owned.ticket.raw := by
  apply NativeSnapshotRing.raw_ne
  rw [← h.keyed hlookup, ← h.keyed hlookup']
  exact hne

/-- Settling abandoned gathers, and completing others, changes no ticket. -/
theorem with_handle (h : Sound inventory r) (hcount : h'.ring.slotCount = r.handle.ring.slotCount)
    (hfits : ∀ {owned}, Fits inventory r.handle owned → Fits inventory h' owned) :
    Sound inventory { r with handle := h' } :=
  ⟨h.usable, hcount.trans h.slotCount, h.keyed, fun hlookup => hfits (h.fits hlookup), h.issued, h.single, h.retired,
    h.bounded⟩

theorem reaps (h : Sound inventory r) (hreaps : Reaps r.handle h') : Sound inventory { r with handle := h' } :=
  h.with_handle hreaps.slotCount fun hfits => hfits.reaps hreaps

/-- A tracked ticket enters another phase, and only its slot changes. -/
theorem updated (h : Sound inventory r) (hlookup : r.tickets.lookup key = some owned)
    (hspares : Spares r.handle h' owned.ticket.raw) (phase : TicketPhase) (view : Option RawReadyView)
    (hfits : Fits inventory h' { owned with phase := phase, view := view }) :
    Sound inventory (update { r with handle := h' } { owned with phase := phase, view := view }) := by
  obtain rfl := h.keyed hlookup
  have hcases : ∀ {key' owned'},
      (r.tickets.insert owned.ticket.key { owned with phase := phase, view := view }).lookup key' = some owned' →
        (key' = owned.ticket.key ∧ owned' = { owned with phase := phase, view := view }) ∨
          (key' ≠ owned.ticket.key ∧ r.tickets.lookup key' = some owned') :=
    fun hlookup' => AList.lookup_insert_some hlookup'
  -- every entry has the ticket that was tracked under its key before
  have htickets : ∀ {key' owned'},
      (r.tickets.insert owned.ticket.key { owned with phase := phase, view := view }).lookup key' = some owned' →
        ∃ before, r.tickets.lookup key' = some before ∧ before.ticket = owned'.ticket := by
    intro key' owned' hlookup'
    obtain ⟨rfl, rfl⟩ | ⟨-, hbefore⟩ := hcases hlookup'
    · exact ⟨owned, hlookup, rfl⟩
    · exact ⟨owned', hbefore, rfl⟩
  refine ⟨h.usable, hspares.slotCount.trans h.slotCount, fun hlookup' => ?_, fun hlookup' => ?_, fun hlookup' => ?_,
    fun hlookup' hlookup'' hsame => ?_, fun t ht => ⟨(h.retired t ht).1, fun hlookup' => ?_⟩, ?_⟩
  · obtain ⟨before, hbefore, hticket⟩ := htickets hlookup'
    exact hticket ▸ h.keyed hbefore
  · obtain ⟨-, rfl⟩ | ⟨hne, hbefore⟩ := hcases hlookup'
    · exact hfits
    · exact (h.fits hbefore).spares hspares (h.raw_ne hlookup hbefore hne)
  · obtain ⟨before, hbefore, hticket⟩ := htickets hlookup'
    exact hticket ▸ h.issued hbefore
  · obtain ⟨before, hbefore, hticket⟩ := htickets hlookup'
    obtain ⟨before', hbefore', hticket'⟩ := htickets hlookup''
    exact h.single hbefore hbefore' (by rw [hticket, hticket']; exact hsame)
  · obtain ⟨before, hbefore, hticket⟩ := htickets hlookup'
    exact hticket ▸ (h.retired t ht).2 hbefore
  · exact (AList.size_insert_of_lookup hlookup _).trans_le h.bounded

/-- A tracked ticket is retired, and only its slot changes. -/
theorem retiring (h : Sound inventory r) (hlookup : r.tickets.lookup key = some owned)
    (hspares : Spares r.handle h' owned.ticket.raw) : Sound inventory (retire { r with handle := h' } owned) := by
  obtain rfl := h.keyed hlookup
  have hcases : ∀ {key' owned'}, (r.tickets.erase owned.ticket.key).lookup key' = some owned' →
      key' ≠ owned.ticket.key ∧ r.tickets.lookup key' = some owned' := fun hlookup' => AList.lookup_erase_some hlookup'
  refine ⟨h.usable, hspares.slotCount.trans h.slotCount, fun hlookup' => h.keyed (hcases hlookup').2, fun hlookup' => ?_,
    fun hlookup' => h.issued (hcases hlookup').2,
    fun hlookup' hlookup'' => h.single (hcases hlookup').2 (hcases hlookup'').2, fun t ht => ?_, ?_⟩
  · obtain ⟨hne, hbefore⟩ := hcases hlookup'
    exact (h.fits hbefore).spares hspares (h.raw_ne hlookup hbefore hne)
  · obtain ht | ht := List.mem_append.mp ht
    · exact ⟨(h.retired t ht).1, fun hlookup' => (h.retired t ht).2 (hcases hlookup').2⟩
    · obtain rfl := List.mem_singleton.mp ht
      exact ⟨h.issued hlookup, fun hlookup' hsame => (hcases hlookup').1 (h.single (hcases hlookup').2 hlookup hsame)⟩
  · exact (AList.size_erase_le _ _).trans h.bounded

end Sound

/-- A ticket is tracked that no earlier submission had. -/
theorem Sound.issuing {h' : SnapshotHandle} (h : Sound inventory r) (hspares : Spares r.handle h' owned.ticket.raw)
    (hfits : Fits inventory h' owned) (hissued : owned.ticket.identity = r.issued)
    (hfresh : r.tickets.lookup owned.ticket.key = none) (hroom : r.tickets.size < config.slotCount) :
    Sound inventory { update { r with handle := h' } owned with issued := r.issued + 1 } := by
  have hcases : ∀ {key' owned'}, (r.tickets.insert owned.ticket.key owned).lookup key' = some owned' →
      (key' = owned.ticket.key ∧ owned' = owned) ∨ (key' ≠ owned.ticket.key ∧ r.tickets.lookup key' = some owned') :=
    fun hlookup' => AList.lookup_insert_some hlookup'
  refine ⟨h.usable, hspares.slotCount.trans h.slotCount, fun hlookup' => ?_, fun hlookup' => ?_, fun hlookup' => ?_,
    fun hlookup' hlookup'' hsame => ?_, fun t ht => ⟨?_, fun hlookup' hsame => ?_⟩, ?_⟩
  · obtain ⟨rfl, rfl⟩ | ⟨-, hbefore⟩ := hcases hlookup'
    · rfl
    · exact h.keyed hbefore
  · obtain ⟨-, rfl⟩ | ⟨hne, hbefore⟩ := hcases hlookup'
    · exact hfits
    · refine (h.fits hbefore).spares hspares (NativeSnapshotRing.raw_ne ?_)
      rw [← h.keyed hbefore]
      exact hne
  · obtain ⟨-, rfl⟩ | ⟨-, hbefore⟩ := hcases hlookup'
    · exact hissued ▸ Nat.lt_succ_self _
    · exact Nat.lt_succ_of_lt (h.issued hbefore)
  · obtain ⟨rfl, rfl⟩ | ⟨-, hbefore⟩ := hcases hlookup' <;> obtain ⟨rfl, rfl⟩ | ⟨-, hbefore'⟩ := hcases hlookup''
    · rfl
    · exact absurd (h.issued hbefore') (by omega)
    · exact absurd (h.issued hbefore) (by omega)
    · exact h.single hbefore hbefore' hsame
  · exact Nat.lt_succ_of_lt (h.retired t ht).1
  · obtain ⟨-, rfl⟩ | ⟨-, hbefore⟩ := hcases hlookup'
    · exact absurd (h.retired t ht).1 (by omega)
    · exact (h.retired t ht).2 hbefore hsame
  · show (r.tickets.insert owned.ticket.key owned).size ≤ config.slotCount
    rw [AList.size_insert_of_none hfresh]
    exact hroom

/-! ## The calls -/

theorem requireTicket_ok {t : SnapshotTicket} (h : r.requireTicket t = .ok owned) :
    r.tickets.lookup t.key = some owned ∧ owned.ticket = t := by
  unfold requireTicket usable at h
  split at h
  · dsimp only [Except.bind, bind] at h
    split at h
    · rename_i hlookup
      split at h
      · rename_i hsame
        cases h
        exact ⟨hlookup, hsame⟩
      · cases h
    · cases h
  · cases h

/-- A view of the ticket is accepted. -/
theorem accept_eq {view : RawReadyView} (hviews : Views inventory owned.ticket view) {state : SlotState}
    (hstate : view.state = state) (phase : TicketPhase) :
    r.accept inventory owned (some view) state phase =
      (r.update { owned with phase := phase, view := some view }, .ok (some view)) := by
  unfold accept
  dsimp only
  rw [hviews.viewError_eq hstate]

theorem poll_sound (h : Sound inventory r) {t : SnapshotTicket}
    (hphase : ∀ owned, r.tickets.lookup t.key = some owned → owned.ticket = t → owned.phase ≠ .abandonedClaimed) :
    Sound inventory (r.poll inventory t).1 := by
  unfold poll
  cases hrequire : r.requireTicket t with
  | error error => exact h
  | ok owned =>
      obtain ⟨hlookup, hsame⟩ := requireTicket_ok hrequire
      have hfits := h.fits hlookup
      dsimp only
      by_cases hready : owned.phase = .ready
      · rw [if_pos hready]
        exact h
      · rw [if_neg hready]
        by_cases hclaimed : owned.phase = .claimed
        · rw [if_pos hclaimed]
          exact h
        · rw [if_neg hclaimed]
          by_cases hsubmitted : owned.phase = .submitted
          · obtain ⟨h', hreaps, hpoll⟩ | ⟨h', view, hspares, hpoll, hstate, hviews, hfits'⟩ :=
              hfits.poll_live (Or.inl hsubmitted)
            · rw [hpoll]
              exact h.reaps hreaps
            · rw [hpoll]
              dsimp only
              rw [if_neg (by rw [hsubmitted]; exact fun h => (nomatch h)), accept_eq hviews hstate]
              exact h.updated hlookup hspares .ready (some view) (hfits' _)
          · have habandoned : owned.phase = .abandonedSubmitted := by
              have hne := hphase owned hlookup hsame
              cases hkind : owned.phase <;> simp_all
            obtain ⟨h', hreaps, hpoll⟩ | ⟨h', hspares, hpoll⟩ := hfits.poll_abandoned habandoned
            · rw [hpoll]
              exact h.reaps hreaps
            · rw [hpoll]
              dsimp only
              rw [if_pos habandoned]
              exact h.retiring hlookup hspares

theorem claim_sound (h : Sound inventory r) (t : SnapshotTicket) : Sound inventory (r.claim inventory t).1 := by
  unfold claim
  cases hrequire : r.requireTicket t with
  | error error => exact h
  | ok owned =>
      obtain ⟨hlookup, -⟩ := requireTicket_ok hrequire
      dsimp only
      by_cases habandoned : owned.phase = .abandonedSubmitted ∨ owned.phase = .abandonedClaimed
      · rw [if_pos habandoned]
        exact h
      · rw [if_neg habandoned]
        by_cases hclaimed : owned.phase = .claimed
        · rw [if_pos hclaimed]
          exact h
        · rw [if_neg hclaimed]
          have hlive : owned.phase = .submitted ∨ owned.phase = .ready := by
            cases hkind : owned.phase <;> simp_all
          obtain ⟨h', hreaps, hclaim⟩ | ⟨h', view, hspares, hclaim, hstate, hviews, hfits⟩ := (h.fits hlookup).claim_live hlive
          · rw [hclaim]
            exact h.reaps hreaps
          · rw [hclaim]
            dsimp only
            rw [accept_eq hviews hstate]
            exact h.updated hlookup hspares .claimed (some view) (hfits _)

theorem release_sound (h : Sound inventory r) (t : SnapshotTicket) : Sound inventory (r.release t).1 := by
  unfold release
  cases hrequire : r.requireTicket t with
  | error error => exact h
  | ok owned =>
      obtain ⟨hlookup, -⟩ := requireTicket_ok hrequire
      dsimp only
      split
      · exact h
      · rename_i hphase
        have hheld : owned.phase = .ready ∨ owned.phase = .claimed ∨ owned.phase = .abandonedClaimed := by
          cases hkind : owned.phase <;> simp_all
        obtain ⟨h', hspares, hrelease⟩ := (h.fits hlookup).release_live hheld
        rw [hrelease]
        exact h.retiring hlookup hspares

/-- Abandoning one tracked ticket changes the entry of its key alone. -/
theorem abandonTicket_spec (contextSequence : ℕ) (hlookup : r.tickets.lookup owned.ticket.key = some owned) :
    let after := abandonTicket contextSequence r owned
    after.handle = r.handle ∧ after.poisoned = r.poisoned ∧ after.issued = r.issued ∧
      after.tickets.size ≤ r.tickets.size ∧
      (∀ key, after.tickets.lookup key =
        if key = owned.ticket.key then abandonedOf contextSequence owned else r.tickets.lookup key) ∧
      ∀ t ∈ after.retired, t ∈ r.retired ∨ t = owned.ticket ∧ abandonedOf contextSequence owned = none := by
  have hsame : ∀ key, r.tickets.lookup key = if key = owned.ticket.key then some owned else r.tickets.lookup key := by
    intro key
    split
    · rename_i heq
      rw [heq, hlookup]
    · rfl
  have hsize := fun owned' => AList.size_insert_of_lookup hlookup owned'
  unfold abandonTicket abandonedOf
  dsimp only
  by_cases hcontext : owned.ticket.contextSequence = contextSequence
  · rw [if_neg (not_not.mpr hcontext), if_neg (not_not.mpr hcontext)]
    cases hphase : owned.phase with
    | submitted =>
        exact ⟨rfl, rfl, rfl, (hsize _).le, fun key => AList.lookup_insert_ite .., fun t ht => Or.inl ht⟩
    | ready =>
        refine ⟨rfl, rfl, rfl, AList.size_erase_le .., fun key => AList.lookup_erase_ite .., fun t ht => ?_⟩
        obtain ht | ht := List.mem_append.mp ht
        · exact Or.inl ht
        · exact Or.inr ⟨List.mem_singleton.mp ht, rfl⟩
    | claimed =>
        exact ⟨rfl, rfl, rfl, (hsize _).le, fun key => AList.lookup_insert_ite .., fun t ht => Or.inl ht⟩
    | abandonedSubmitted => exact ⟨rfl, rfl, rfl, le_rfl, hsame, fun t ht => Or.inl ht⟩
    | abandonedClaimed => exact ⟨rfl, rfl, rfl, le_rfl, hsame, fun t ht => Or.inl ht⟩
  · rw [if_pos hcontext, if_pos hcontext]
    exact ⟨rfl, rfl, rfl, le_rfl, hsame, fun t ht => Or.inl ht⟩

/-- So do several of them, one after the other. -/
theorem foldl_abandonTicket (contextSequence : ℕ) (owners : List OwnedTicket) : ∀ r : NativeSnapshotRing,
    (owners.map fun owned => owned.ticket.key).Nodup →
    (∀ owned ∈ owners, r.tickets.lookup owned.ticket.key = some owned) →
    let after := owners.foldl (abandonTicket contextSequence) r
    after.handle = r.handle ∧ after.poisoned = r.poisoned ∧ after.issued = r.issued ∧
      after.tickets.size ≤ r.tickets.size ∧
      (∀ key, after.tickets.lookup key =
        if key ∈ owners.map fun owned => owned.ticket.key then (r.tickets.lookup key).bind (abandonedOf contextSequence)
        else r.tickets.lookup key) ∧
      ∀ t ∈ after.retired, t ∈ r.retired ∨
        ∃ owned ∈ owners, t = owned.ticket ∧ abandonedOf contextSequence owned = none := by
  induction owners with
  | nil =>
      refine fun r _ _ => ⟨rfl, rfl, rfl, le_rfl, fun key => ?_, fun t ht => Or.inl ht⟩
      rw [List.map_nil, if_neg List.not_mem_nil]
      rfl
  | cons owned rest ih =>
      intro r hnodup htracked
      rw [List.map_cons, List.nodup_cons] at hnodup
      obtain ⟨hhead, hrest⟩ := List.forall_mem_cons.mp htracked
      obtain ⟨hhandle, hpoisoned, hissued, hsize, hlookup, hretired⟩ := abandonTicket_spec contextSequence hhead
      have hafter : ∀ other ∈ rest, (abandonTicket contextSequence r owned).tickets.lookup other.ticket.key = some other := by
        intro other hother
        have hne : other.ticket.key ≠ owned.ticket.key := by
          intro heq
          exact hnodup.1 (heq ▸ List.mem_map_of_mem hother)
        rw [hlookup, if_neg hne]
        exact hrest other hother
      obtain ⟨hhandle', hpoisoned', hissued', hsize', hlookup', hretired'⟩ := ih _ hnodup.2 hafter
      refine ⟨hhandle'.trans hhandle, hpoisoned'.trans hpoisoned, hissued'.trans hissued, hsize'.trans hsize,
        fun key => ?_, fun t ht => ?_⟩
      · rw [List.foldl_cons, hlookup', hlookup]
        by_cases heq : key = owned.ticket.key
        · subst heq
          rw [if_neg hnodup.1, if_pos rfl, if_pos (by simp), hhead]
          rfl
        · rw [if_neg heq]
          simp [heq]
      · obtain ht | ⟨other, hother, ht⟩ := hretired' t ht
        · obtain ht | ht := hretired t ht
          · exact Or.inl ht
          · exact Or.inr ⟨owned, List.mem_cons_self, ht⟩
        · exact Or.inr ⟨other, List.mem_cons_of_mem _ hother, ht⟩

theorem abandon_sound (h : Sound inventory r) (contextSequence : ℤ) : Sound inventory (r.abandon contextSequence).1 := by
  unfold abandon
  split
  · exact h
  · rename_i hrange
    rw [not_not] at hrange
    have husable : r.usable = .ok () := if_pos h.usable
    have hnonzero : contextSequence.toNat ≠ 0 := by omega
    rw [husable]
    dsimp only [SnapshotHandle.abandonContext]
    rw [if_neg hnonzero]
    dsimp only
    have hreaps := reapAbandoned_reaps { r.handle with ring := r.handle.ring.abandon contextSequence.toNat } none
    generalize reapAbandoned { r.handle with ring := r.handle.ring.abandon contextSequence.toNat } none = h' at hreaps ⊢
    have hentries : ∀ e ∈ r.tickets.entries, r.tickets.lookup e.2.ticket.key = some e.2 := by
      intro e he
      have hlookup : r.tickets.lookup e.1 = some e.2 := AList.lookup_eq_some_iff.mpr he
      rw [← h.keyed hlookup]
      exact hlookup
    have hkeys : (r.tickets.entries.reverse.map (·.2)).map (fun owned => owned.ticket.key) =
        (r.tickets.entries.map (·.1)).reverse := by
      rw [List.map_map, ← List.map_reverse]
      refine List.map_congr_left fun e he => ?_
      exact (h.keyed (AList.lookup_eq_some_iff.mpr (List.mem_reverse.mp he))).symm
    obtain ⟨hhandle, hpoisoned, hissued, hsize, hlookup, hretired⟩ := foldl_abandonTicket contextSequence.toNat
      (r.tickets.entries.reverse.map (·.2)) { r with handle := h' }
      (by rw [hkeys]; exact List.nodup_reverse.mpr r.tickets.keys_nodup)
      (by
        intro owned howned
        obtain ⟨e, he, rfl⟩ := List.mem_map.mp howned
        exact hentries e (List.mem_reverse.mp he))
    generalize (r.tickets.entries.reverse.map (·.2)).foldl (abandonTicket contextSequence.toNat) { r with handle := h' } =
      after at *
    have hbefore : ∀ {key owned'}, after.tickets.lookup key = some owned' → ∃ owned, r.tickets.lookup key = some owned ∧
        abandonedOf contextSequence.toNat owned = some owned' := by
      intro key owned' hafter
      rw [hlookup] at hafter
      split at hafter
      · exact Option.bind_eq_some_iff.mp hafter
      · rename_i hmissing
        refine absurd ?_ hmissing
        rw [hkeys, List.mem_reverse]
        exact List.mem_map_of_mem (AList.lookup_eq_some_iff.mp hafter)
    refine ⟨hpoisoned.trans h.usable, ?_, fun hafter => ?_, fun hafter => ?_, fun hafter => ?_,
      fun hafter hafter' hsame => ?_, fun t ht => ?_, hsize.trans h.bounded⟩
    · rw [hhandle]
      exact hreaps.slotCount.trans h.slotCount
    · obtain ⟨owned, howned, habandoned⟩ := hbefore hafter
      rw [abandonedOf_ticket habandoned]
      exact h.keyed howned
    · obtain ⟨owned, howned, habandoned⟩ := hbefore hafter
      rw [hhandle]
      exact ((h.fits howned).abandoned habandoned).reaps hreaps
    · obtain ⟨owned, howned, habandoned⟩ := hbefore hafter
      rw [abandonedOf_ticket habandoned, hissued]
      exact h.issued howned
    · obtain ⟨owned, howned, habandoned⟩ := hbefore hafter
      obtain ⟨owned', howned', habandoned'⟩ := hbefore hafter'
      rw [abandonedOf_ticket habandoned, abandonedOf_ticket habandoned'] at hsame
      exact h.single howned howned' hsame
    · rw [hissued]
      obtain ht | ⟨gone, hgone, rfl, hnone⟩ := hretired t ht
      · refine ⟨(h.retired t ht).1, fun hafter => ?_⟩
        obtain ⟨owned, howned, habandoned⟩ := hbefore hafter
        rw [abandonedOf_ticket habandoned]
        exact (h.retired t ht).2 howned
      · obtain ⟨e, he, rfl⟩ := List.mem_map.mp hgone
        have htracked := hentries e (List.mem_reverse.mp he)
        refine ⟨h.issued htracked, fun hafter hsame => ?_⟩
        obtain ⟨owned, howned, habandoned⟩ := hbefore hafter
        rw [abandonedOf_ticket habandoned] at hsame
        have hkey := h.single howned htracked hsame
        rw [hkey, htracked] at howned
        cases howned
        rw [hnone] at habandoned
        cases habandoned

/-! ## Submissions -/

/-- The tracked tickets that resolve to no slot. -/
def staleTickets (r : NativeSnapshotRing) (h : SnapshotHandle) : ℕ :=
  (r.tickets.entries.filter fun e => ¬h.ring.Resolves e.2.ticket.raw).length

def freeSlots (h : SnapshotHandle) : ℕ :=
  ((List.range h.ring.slotCount).filter fun index => (h.ring.slots index).state = .free).length

/-- Every other tracked ticket has a used slot of its own. -/
theorem Sound.size_add_freeSlots (h : Sound inventory r) :
    r.tickets.size + freeSlots r.handle ≤ r.staleTickets r.handle + config.slotCount := by
  have hentries := List.length_eq_length_filter_add (l := r.tickets.entries)
    fun e => decide (r.handle.ring.Resolves e.2.ticket.raw)
  have hrange := List.length_eq_length_filter_add (l := List.range r.handle.ring.slotCount)
    fun index => decide ((r.handle.ring.slots index).state = .free)
  have hused : (r.tickets.entries.filter fun e => decide (r.handle.ring.Resolves e.2.ticket.raw)).length ≤
      ((List.range r.handle.ring.slotCount).filter fun index => !decide ((r.handle.ring.slots index).state = .free)).length := by
    rw [← List.length_map fun e => e.2.ticket.slotIndex]
    refine (List.Nodup.subperm ?_ fun index hindex => ?_).length_le
    · refine List.Nodup.map_on (fun e he e' he' hsame => ?_) (r.tickets.nodupKeys.nodup.filter _)
      obtain ⟨he, hresolves⟩ := List.mem_filter.mp he
      obtain ⟨he', hresolves'⟩ := List.mem_filter.mp he'
      have hlookup := AList.lookup_eq_some_iff.mpr he
      have hlookup' := AList.lookup_eq_some_iff.mpr he'
      have hgeneration := (of_decide_eq_true hresolves).2.2
      have hgeneration' := (of_decide_eq_true hresolves').2.2
      dsimp only [SnapshotTicket.raw] at hsame hgeneration hgeneration'
      have hkey : e.1 = e'.1 := by
        rw [h.keyed hlookup, h.keyed hlookup', SnapshotTicket.key, SnapshotTicket.key, ← hgeneration, ← hgeneration', hsame]
      rw [hkey, hlookup'] at hlookup
      exact Sigma.ext hkey (heq_of_eq (Option.some.inj hlookup).symm)
    · obtain ⟨e, he, rfl⟩ := List.mem_map.mp hindex
      obtain ⟨hcount, hstate, -⟩ := of_decide_eq_true (List.mem_filter.mp he).2
      rw [List.mem_filter]
      exact ⟨List.mem_range.mpr hcount, by simpa [SnapshotTicket.raw] using hstate⟩
  have hcount := h.slotCount
  rw [List.length_range, hcount] at hrange
  simp only [AList.size, staleTickets, freeSlots, decide_not, hcount] at *
  omega

/-- What a call has to meet. A poll names no abandoned writer. The rows of a submission are rows of every
source, and when it gets a slot, free slots outnumber the stale tickets, none of which has its key. -/
def Meets (inventory : SourceInventory config) (r : NativeSnapshotRing) : RingAction → Prop
  | .poll t => ∀ owned ∈ r.tickets.lookup t.key, owned.ticket = t → owned.phase ≠ .abandonedClaimed
  | .submit contextSequence logicalStart physicalSlots producerStream =>
      (validateSubmission config contextSequence logicalStart physicalSlots producerStream).toOption.isSome = true →
        (calculatePayloadLayout inventory.sources physicalSlots.length config.slotBytes).toOption.isSome = true →
          (∀ slot ∈ physicalSlots, ∀ source ∈ inventory.sources, slot < source.sourceRows) ∧
            ∀ index ∈ (r.handle.reapAbandoned none).ring.firstFree,
              r.tickets.lookup (index, RingState.nextGeneration (r.handle.ring.slots index).generation) = none ∧
                r.staleTickets (r.handle.reapAbandoned none) < freeSlots (r.handle.reapAbandoned none)
  | _ => True

theorem validateSubmission_ok {contextSequence logicalStart : ℤ} {physicalSlots : List ℤ} {producerStream : ℤ}
    (h : validateSubmission config contextSequence logicalStart physicalSlots producerStream = .ok ()) :
    contextSequence.toNat ≠ 0 ∧ physicalSlots.length ≠ 0 ∧ physicalSlots.length ≤ config.maxRows ∧
      ∀ slot ∈ physicalSlots, 0 ≤ slot := by
  unfold validateSubmission at h
  split at h
  · cases h
  · rename_i hcontext
    split at h
    · cases h
    · split at h
      · cases h
      · split at h
        · cases h
        · rename_i hrows
          split at h
          · cases h
          · rename_i hslots
            rw [not_not] at hcontext hslots
            rw [not_or, Nat.not_lt] at hrows
            refine ⟨by omega, fun hnone => hrows.1 (List.length_eq_zero_iff.mp hnone), hrows.2, fun slot hslot => ?_⟩
            exact (hslots slot hslot).1

theorem submit_sound (h : Sound inventory r) {contextSequence logicalStart : ℤ} {physicalSlots : List ℤ}
    {producerStream : ℤ} (hmeets : Meets inventory r (.submit contextSequence logicalStart physicalSlots producerStream)) :
    Sound inventory (r.submit inventory contextSequence logicalStart physicalSlots producerStream).1 := by
  unfold submit
  cases hvalid : validateSubmission config contextSequence logicalStart physicalSlots producerStream with
  | error error => exact h
  | ok u =>
      cases u
      obtain ⟨hcontext, hsome, hmany, hnatural⟩ := validateSubmission_ok hvalid
      have husable : r.usable = .ok () := if_pos h.usable
      have hreaps := reapAbandoned_reaps r.handle none
      rw [Meets, hvalid] at hmeets
      rw [husable]
      dsimp only
      have hphysical : ∀ layout, calculatePayloadLayout inventory.sources physicalSlots.length config.slotBytes = .ok layout →
          ∀ slot ∈ physicalSlots.map Int.toNat, ∀ source ∈ inventory.sources, slot < source.sourceRows := by
        intro layout hlayout slot hslot source hsource
        rw [hlayout] at hmeets
        obtain ⟨raw, hraw, rfl⟩ := List.mem_map.mp hslot
        have hbelow := (hmeets rfl rfl).1 raw hraw source hsource
        have hleast := hnatural raw hraw
        omega
      obtain hdropped | hblocked | ⟨h', index, layout, hlayout, hfree, hsubmit, hspares, hfits⟩ :=
        trySubmit_spec inventory h.slotCount (submissionOf contextSequence logicalStart physicalSlots) r.issued hcontext
          ⟨hsome, hmany⟩ hphysical
      · rw [hdropped]
        exact h.reaps hreaps
      · rw [hblocked]
        exact h.reaps hreaps
      · rw [hsubmit]
        dsimp only
        have hlayout' : calculatePayloadLayout inventory.sources physicalSlots.length config.slotBytes = .ok layout := hlayout
        rw [hlayout'] at hmeets
        obtain ⟨-, hroom⟩ := hmeets rfl rfl
        obtain ⟨hfresh, hroom⟩ := hroom index hfree
        have hindex := (firstFree_spec hfree).1
        rw [hreaps.slotCount, h.slotCount] at hindex
        have hpositive := nextGeneration_pos (r.handle.ring.slots index).generation
        rw [if_neg (by omega), if_neg (not_not.mpr hfresh)]
        have hsize := (h.reaps hreaps).size_add_freeSlots
        exact h.issuing hspares hfits rfl hfresh (by dsimp only [staleTickets] at hsize hroom; omega)

instance (inventory : SourceInventory config) (r : NativeSnapshotRing) :
    (action : RingAction) → Decidable (Meets inventory r action)
  | .poll _ => inferInstanceAs (Decidable (∀ _ ∈ _, _))
  | .submit .. => inferInstanceAs (Decidable (_ → _ → _ ∧ ∀ _ ∈ _, _))
  | .claim _ | .release _ | .abandon _ | .gathered _ | .reaped _ | .completed _ => .isTrue trivial

/-! ## Runs -/

theorem complete_slotCount (ring : RingState) (t : RawTicket) : (ring.complete t).1.slotCount = ring.slotCount := by
  unfold RingState.complete
  split
  · rfl
  · split
    · rfl
    · split <;> rfl

theorem step_sound (h : Sound inventory r) {action : RingAction} (hmeets : Meets inventory r action) :
    Sound inventory (step inventory r action) := by
  cases action with
  | submit contextSequence logicalStart physicalSlots producerStream => exact submit_sound h hmeets
  | poll t => exact poll_sound h hmeets
  | claim t => exact claim_sound h t
  | release t => exact release_sound h t
  | abandon contextSequence => exact abandon_sound h contextSequence
  | gathered index => exact h.reaps ⟨rfl, rfl, rfl, fun _ => Or.inl rfl⟩
  | reaped index => exact h.reaps (reap_reaps r.handle index)
  | completed index =>
      unfold step
      dsimp only
      split
      · exact h.with_handle (complete_slotCount ..) fun hfits => hfits.completed index
      · exact h

/-- Polling a ticket that resolves to no slot drops it. -/
theorem poll_stale {h : SnapshotHandle} {t : RawTicket} (hstale : ¬h.ring.Resolves t) :
    h.poll t = (h.reapAbandoned (some t.slotIndex), .dropped, none) := by
  unfold SnapshotHandle.poll
  dsimp only
  rw [if_pos fun hresolves => hstale ((reapAbandoned_reaps h _).resolves hresolves).1]

/-- What the owner of a ring is promised of its tickets. -/
structure Agrees (inventory : SourceInventory config) (r : NativeSnapshotRing) : Prop where
  usable : r.poisoned = none
  tracked : ∀ key owned, r.tickets.lookup key = some owned → key = owned.ticket.key ∧ Fits inventory r.handle owned
  retired : ∀ t ∈ r.retired, ∀ owned ∈ r.tickets.lookup t.key, owned.ticket ≠ t
  rejects : ∀ t, (∀ owned ∈ r.tickets.lookup t.key, owned.ticket ≠ t) →
    r.poll inventory t = (r, .error (.state "snapshot ticket is stale or already released")) ∧
      r.claim inventory t = (r, .error (.state "snapshot ticket is stale or already released")) ∧
      r.release t = (r, .error (.state "snapshot ticket is stale or already released"))
  settled : ∀ key owned, r.tickets.lookup key = some owned → ¬r.handle.ring.Resolves owned.ticket.raw →
    (∃ h', Reaps r.handle h' ∧ r.poll inventory owned.ticket = (retire { r with handle := h' } owned, .ok none)) ∧
      r.claim inventory owned.ticket = (r, .error (.state "abandoned snapshot tickets cannot be claimed")) ∧
      r.release owned.ticket = (r, .error (.state "only READY or claimed snapshot tickets can be released"))
  bounded : r.tickets.size ≤ config.slotCount

theorem requireTicket_of_lookup (hpoisoned : r.poisoned = none) (hlookup : r.tickets.lookup owned.ticket.key = some owned) :
    r.requireTicket owned.ticket = .ok owned := by
  unfold requireTicket usable
  rw [if_pos hpoisoned, hlookup]
  dsimp only [bind, Except.bind]
  rw [if_pos rfl]
  rfl

theorem requireTicket_of_other (hpoisoned : r.poisoned = none) {t : SnapshotTicket}
    (hother : ∀ owned ∈ r.tickets.lookup t.key, owned.ticket ≠ t) :
    r.requireTicket t = .error (.state "snapshot ticket is stale or already released") := by
  unfold requireTicket usable
  rw [if_pos hpoisoned]
  dsimp only [bind, Except.bind]
  cases hlookup : r.tickets.lookup t.key with
  | none => rfl
  | some owned =>
      dsimp only
      rw [if_neg (hother owned hlookup)]

theorem Sound.agrees (h : Sound inventory r) : Agrees inventory r where
  usable := h.usable
  tracked key owned hlookup := ⟨h.keyed hlookup, h.fits hlookup⟩
  retired t ht owned hlookup hsame := (h.retired t ht).2 hlookup (by rw [hsame])
  rejects t hother := by
    have hrequire := requireTicket_of_other h.usable hother
    unfold poll claim release
    rw [hrequire]
    exact ⟨rfl, rfl, rfl⟩
  settled key owned hlookup hstale := by
    obtain rfl := h.keyed hlookup
    have hphase : owned.phase = .abandonedSubmitted := by
      by_contra hne
      exact hstale ((h.fits hlookup).live hne)
    have hrequire := requireTicket_of_lookup h.usable hlookup
    unfold poll claim release
    rw [hrequire]
    dsimp only
    rw [poll_stale hstale, hphase]
    exact ⟨⟨_, reapAbandoned_reaps r.handle _, rfl⟩, rfl, rfl⟩
  bounded := h.bounded

/-- In every run whose calls meet their conditions, the ring is never poisoned, the phase of each ticket is
that of its slot, tickets that are not tracked are rejected, and there are never more tickets than slots. -/
theorem tickets_follow_slots (inventory : SourceInventory config) {actions : List RingAction}
    (h : Run.Throughout (step inventory) (Meets inventory) (new inventory) actions) :
    Agrees inventory (Run.exec (step inventory) (new inventory) actions) :=
  (h.preserves (fun _ _ hsound hmeets => step_sound hsound hmeets) (new_sound inventory)).agrees

def sampleConfig : NativeRingConfig where
  slotBytes := 4096
  slotCount := 2
  maxSources := 1
  maxRows := 4
  slots := by decide
  positive := by decide
  bounded := by decide

/-- One layer of eight rows of 16 bytes. -/
def sampleInventory : SourceInventory sampleConfig where
  sources := [⟨4096, 8, 16, 16, 0, 0⟩]
  checked := by
    intro s hs
    obtain rfl := List.mem_singleton.mp hs
    rfl
  accepted := rfl

def sampleTicket (generation slotIndex contextSequence identity : ℕ) : SnapshotTicket :=
  ⟨generation, slotIndex, contextSequence, 0, 2, identity⟩

/-- The second submission reuses a slot, while the ticket of the first, abandoned one is still tracked. -/
theorem tickets_follow_slots_sample :
    Agrees sampleInventory (Run.exec (step sampleInventory) (new sampleInventory)
      [.submit 1 0 [0, 5] 0, .abandon 1, .gathered 0, .submit 2 0 [3, 4] 0, .gathered 0, .poll (sampleTicket 2 0 2 1),
        .claim (sampleTicket 2 0 2 1), .poll (sampleTicket 1 0 1 0), .release (sampleTicket 2 0 2 1)]) :=
  tickets_follow_slots sampleInventory (by decide +kernel)

/-- Polling a claimed ticket whose context was abandoned poisons the ring; so does a physical slot that no
source has. Abandoned tickets that are not polled again outnumber the slots. -/
theorem tickets_leave_slots :
    (Run.exec (step sampleInventory) (new sampleInventory)
        [.submit 1 0 [0, 5] 0, .gathered 0, .claim (sampleTicket 1 0 1 0), .abandon 1,
          .poll (sampleTicket 1 0 1 0)]).poisoned =
      some (.state "C++/CUDA READY view has an unexpected ownership state") ∧
    (Run.exec (step sampleInventory) (new sampleInventory) [.submit 1 0 [0, 8] 0]).poisoned =
      some (.status "submit" .invalidArgument) ∧
    ¬(Run.exec (step sampleInventory) (new sampleInventory)
        [.submit 1 0 [0, 5] 0, .abandon 1, .gathered 0, .submit 2 0 [3, 4] 0, .abandon 2, .gathered 0,
          .submit 3 0 [1, 2] 0]).tickets.size ≤ sampleConfig.slotCount := by
  decide +kernel

end NativeSnapshotRing
end SparkCache.RowStream
