import SparkCache.Lib.Dictionary

/-!
# Leases on the blocks of gathers in flight

The registry of block reads: a lease owns its blocks and is listed under its request.
-/
namespace SparkCache.Streaming

/-- `_State` -/
inductive LeaseState where
  | reserved
  | submitting
  | armed
  | submissionUnknown
  deriving DecidableEq

/-- `_Lease` -/
structure BlockLease where
  leaseId : ℕ
  requestId : String
  blockIds : List ℕ
  state : LeaseState
  deriving DecidableEq

/-- `LeaseCapacity` -/
structure LeaseCapacity where
  maxActiveLeases : ℕ
  maxLeasedBlocks : ℕ
  positive : 0 < maxActiveLeases ∧ 0 < maxLeasedBlocks

/-- `BlockLeaseRegistry` -/
structure BlockLeaseRegistry where
  nextId : ℕ
  leases : Dictionary ℕ BlockLease
  byRequest : Dictionary String (List ℕ)
  blockOwner : Dictionary ℕ ℕ

namespace BlockLeaseRegistry

def new : BlockLeaseRegistry := ⟨1, ∅, ∅, ∅⟩

def ownBlocks (owners : Dictionary ℕ ℕ) (leaseId : ℕ) : List ℕ → Dictionary ℕ ℕ
  | [] => owners
  | block :: rest => ownBlocks (owners.insert block leaseId) leaseId rest

/-- `try_reserve`; a call that raises or is declined changes nothing. -/
def tryReserve (c : LeaseCapacity) (r : BlockLeaseRegistry) (requestId : String) (blockIds : List ℤ) :
    BlockLeaseRegistry :=
  let blocks := blockIds.map Int.toNat
  if requestId = "" ∨ blockIds = [] ∨ ¬blockIds.Nodup ∨ ¬∀ block ∈ blockIds, 0 ≤ block then r
  else if c.maxActiveLeases ≤ r.leases.size then r
  else if c.maxLeasedBlocks < r.blockOwner.size + blocks.length then r
  else if ∃ block ∈ blocks, r.blockOwner.lookup block ≠ none then r
  else
    { nextId := r.nextId + 1
      leases := r.leases.insert r.nextId ⟨r.nextId, requestId, blocks, .reserved⟩
      byRequest := r.byRequest.insert requestId ((r.byRequest.lookup requestId).getD [] ++ [r.nextId])
      blockOwner := ownBlocks r.blockOwner r.nextId blocks }

def disownBlocks (owners : Dictionary ℕ ℕ) (leaseId : ℕ) : List ℕ → Option (Dictionary ℕ ℕ)
  | [] => some owners
  | block :: rest =>
      if owners.lookup block = some leaseId then disownBlocks (owners.erase block) leaseId rest else none

/-- `_release_locked`; none stands for a `KeyError` or an `AssertionError`. -/
def releaseLocked (r : BlockLeaseRegistry) (lease : BlockLease) : Option BlockLeaseRegistry := do
  let requestLeases ← r.byRequest.lookup lease.requestId
  if r.leases.lookup lease.leaseId = none ∨ lease.leaseId ∉ requestLeases then none
  else
    let blockOwner ← disownBlocks r.blockOwner lease.leaseId lease.blockIds
    let remaining := requestLeases.erase lease.leaseId
    return {
      nextId := r.nextId
      leases := r.leases.erase lease.leaseId
      byRequest :=
        if remaining = [] then r.byRequest.erase lease.requestId else r.byRequest.insert lease.requestId remaining
      blockOwner := blockOwner }

def setState (r : BlockLeaseRegistry) (lease : BlockLease) (state : LeaseState) : BlockLeaseRegistry :=
  { r with leases := r.leases.insert lease.leaseId { lease with state := state } }

/-- The leases in a state, among those with the given identifiers. -/
def inState (r : BlockLeaseRegistry) (state : LeaseState) (leaseIds : List ℕ) : List BlockLease :=
  (leaseIds.filterMap r.leases.lookup).filter fun lease => lease.state = state

/-! ## What the registry keeps -/

structure Sound (c : LeaseCapacity) (r : BlockLeaseRegistry) : Prop where
  ids : ∀ id lease, r.leases.lookup id = some lease → lease.leaseId = id ∧ id < r.nextId ∧ lease.blockIds.Nodup
  owners : ∀ block id, r.blockOwner.lookup block = some id ↔
    ∃ lease, r.leases.lookup id = some lease ∧ block ∈ lease.blockIds
  requests : ∀ requestId id, (∃ ids, r.byRequest.lookup requestId = some ids ∧ id ∈ ids) ↔
    ∃ lease, r.leases.lookup id = some lease ∧ lease.requestId = requestId
  listed : ∀ requestId ids, r.byRequest.lookup requestId = some ids → ids.Nodup ∧ ids ≠ []
  leaseBound : r.leases.size ≤ c.maxActiveLeases
  blockBound : r.blockOwner.size ≤ c.maxLeasedBlocks

variable {c : LeaseCapacity} {r : BlockLeaseRegistry}

theorem new_sound (c : LeaseCapacity) : new.Sound c := by
  refine ⟨?_, ?_, ?_, ?_, Nat.zero_le _, Nat.zero_le _⟩
  · intro id lease h
    cases h
  · intro block id
    simp [new]
  · intro requestId id
    simp [new]
  · intro requestId ids h
    cases h

theorem lookup_ownBlocks (leaseId : ℕ) (blocks : List ℕ) : ∀ (owners : Dictionary ℕ ℕ) (block : ℕ),
    (ownBlocks owners leaseId blocks).lookup block =
      if block ∈ blocks then some leaseId else owners.lookup block := by
  induction blocks with
  | nil => simp [ownBlocks]
  | cons b rest ih =>
      intro owners block
      rw [ownBlocks, ih]
      by_cases hrest : block ∈ rest
      · simp [hrest]
      · rw [if_neg hrest]
        by_cases heq : block = b
        · rw [heq, AList.lookup_insert, if_pos List.mem_cons_self]
        · rw [AList.lookup_insert_ne heq, if_neg (by simp [heq, hrest])]

theorem size_ownBlocks (leaseId : ℕ) (blocks : List ℕ) : ∀ owners : Dictionary ℕ ℕ,
    (ownBlocks owners leaseId blocks).size ≤ owners.size + blocks.length := by
  induction blocks with
  | nil => exact fun owners => Nat.le_refl _
  | cons b rest ih =>
      intro owners
      have hrest := ih (owners.insert b leaseId)
      have hone := AList.size_insert owners b leaseId
      have herase := AList.size_erase_le owners b
      rw [ownBlocks, List.length_cons]
      omega

/-- A reservation adds the next lease, or changes nothing. -/
theorem tryReserve_spec (c : LeaseCapacity) (r : BlockLeaseRegistry) (requestId : String) (blockIds : List ℤ) :
    r.tryReserve c requestId blockIds = r ∨
      ∃ blocks : List ℕ, blocks.Nodup ∧ r.leases.size < c.maxActiveLeases ∧
        r.blockOwner.size + blocks.length ≤ c.maxLeasedBlocks ∧ (∀ block ∈ blocks, r.blockOwner.lookup block = none) ∧
        r.tryReserve c requestId blockIds = {
          nextId := r.nextId + 1
          leases := r.leases.insert r.nextId ⟨r.nextId, requestId, blocks, .reserved⟩
          byRequest := r.byRequest.insert requestId ((r.byRequest.lookup requestId).getD [] ++ [r.nextId])
          blockOwner := ownBlocks r.blockOwner r.nextId blocks } := by
  unfold tryReserve
  by_cases hvalid : requestId = "" ∨ blockIds = [] ∨ ¬blockIds.Nodup ∨ ¬∀ block ∈ blockIds, 0 ≤ block
  · rw [if_pos hvalid]
    exact Or.inl rfl
  rw [if_neg hvalid]
  simp only [not_or, not_not] at hvalid
  obtain ⟨-, -, hnodup, hpositive⟩ := hvalid
  by_cases hleases : c.maxActiveLeases ≤ r.leases.size
  · rw [if_pos hleases]
    exact Or.inl rfl
  rw [if_neg hleases]
  by_cases hblocks : c.maxLeasedBlocks < r.blockOwner.size + (blockIds.map Int.toNat).length
  · rw [if_pos hblocks]
    exact Or.inl rfl
  rw [if_neg hblocks]
  by_cases howned : ∃ block ∈ blockIds.map Int.toNat, r.blockOwner.lookup block ≠ none
  · rw [if_pos howned]
    exact Or.inl rfl
  rw [if_neg howned]
  simp only [not_exists, not_and, not_not] at howned
  refine Or.inr ⟨blockIds.map Int.toNat, ?_, by omega, by omega, howned, rfl⟩
  refine hnodup.map_on fun a ha b hb hab => ?_
  have hapos := hpositive a ha
  have hbpos := hpositive b hb
  omega

theorem Sound.fresh (h : r.Sound c) : r.leases.lookup r.nextId = none := by
  rw [Option.eq_none_iff_forall_ne_some]
  intro lease hlease
  exact absurd (h.ids _ lease hlease).2.1 (Nat.lt_irrefl _)

/-- The leases of a request are listed under it. -/
theorem Sound.mem_getD (h : r.Sound c) {requestId : String} {id : ℕ} :
    id ∈ (r.byRequest.lookup requestId).getD [] ↔
      ∃ lease, r.leases.lookup id = some lease ∧ lease.requestId = requestId := by
  rw [← h.requests]
  cases r.byRequest.lookup requestId with
  | none => simp
  | some ids => simp

theorem Sound.nodup_getD (h : r.Sound c) (requestId : String) : ((r.byRequest.lookup requestId).getD []).Nodup := by
  cases hlookup : r.byRequest.lookup requestId with
  | none => exact List.nodup_nil
  | some ids => exact (h.listed requestId ids hlookup).1

theorem Sound.tryReserve (h : r.Sound c) (requestId : String) (blockIds : List ℤ) :
    (r.tryReserve c requestId blockIds).Sound c := by
  obtain hsame | ⟨blocks, hnodup, hleases, hblocks, hfree, heq⟩ := tryReserve_spec c r requestId blockIds
  · rw [hsame]
    exact h
  rw [heq]
  have hfresh := h.fresh
  have hlookup : ∀ id, (r.leases.insert r.nextId ⟨r.nextId, requestId, blocks, .reserved⟩).lookup id =
      if id = r.nextId then some ⟨r.nextId, requestId, blocks, .reserved⟩ else r.leases.lookup id := by
    intro id
    by_cases hid : id = r.nextId
    · rw [hid, AList.lookup_insert, if_pos rfl]
    · rw [AList.lookup_insert_ne hid, if_neg hid]
  constructor
  · intro id lease hlease
    rw [hlookup] at hlease
    dsimp only
    split at hlease
    · rename_i hid
      cases hlease
      exact ⟨hid.symm, by omega, hnodup⟩
    · obtain ⟨hsame, hlt, hdistinct⟩ := h.ids id lease hlease
      exact ⟨hsame, by omega, hdistinct⟩
  · intro block id
    dsimp only
    rw [lookup_ownBlocks]
    by_cases hmem : block ∈ blocks
    · rw [if_pos hmem, Option.some.injEq]
      constructor
      · rintro rfl
        exact ⟨_, AList.lookup_insert _, hmem⟩
      · rintro ⟨lease, hlease, hin⟩
        rw [hlookup] at hlease
        split at hlease
        · rename_i hid
          exact hid.symm
        · have howner := (h.owners block id).mpr ⟨lease, hlease, hin⟩
          rw [hfree block hmem] at howner
          cases howner
    · rw [if_neg hmem, h.owners]
      constructor
      · rintro ⟨lease, hlease, hin⟩
        refine ⟨lease, ?_, hin⟩
        rw [hlookup, if_neg, hlease]
        rintro rfl
        rw [hfresh] at hlease
        cases hlease
      · rintro ⟨lease, hlease, hin⟩
        rw [hlookup] at hlease
        split at hlease
        · cases hlease
          exact absurd hin hmem
        · exact ⟨lease, hlease, hin⟩
  · intro other id
    dsimp only
    rw [hlookup]
    by_cases hother : other = requestId
    · subst hother
      rw [AList.lookup_insert]
      simp only [Option.some.injEq, exists_eq_left', List.mem_append, List.mem_singleton, h.mem_getD]
      by_cases hid : id = r.nextId
      · simp [hid]
      · simp [hid]
    · rw [AList.lookup_insert_ne hother, h.requests]
      by_cases hid : id = r.nextId
      · subst hid
        simp [hfresh, Ne.symm hother]
      · rw [if_neg hid]
  · intro other ids hids
    dsimp only at hids
    by_cases hother : other = requestId
    · subst hother
      rw [AList.lookup_insert, Option.some.injEq] at hids
      subst hids
      refine ⟨?_, by simp⟩
      refine (h.nodup_getD other).append (List.nodup_singleton _) ?_
      rw [List.disjoint_singleton, h.mem_getD]
      rintro ⟨lease, hlease, -⟩
      rw [hfresh] at hlease
      cases hlease
    · rw [AList.lookup_insert_ne hother] at hids
      exact h.listed other ids hids
  · dsimp only
    rw [AList.size_insert_of_none hfresh]
    omega
  · have hsize := size_ownBlocks r.nextId blocks r.blockOwner
    dsimp only
    omega

/-- Blocks of one owner can be given back. -/
theorem disownBlocks_spec (leaseId : ℕ) (blocks : List ℕ) : ∀ {owners : Dictionary ℕ ℕ}, blocks.Nodup →
    (∀ block ∈ blocks, owners.lookup block = some leaseId) →
    ∃ owners', disownBlocks owners leaseId blocks = some owners' ∧ owners'.size ≤ owners.size ∧
      ∀ block, owners'.lookup block = if block ∈ blocks then none else owners.lookup block := by
  induction blocks with
  | nil => exact fun {owners} _ _ => ⟨owners, rfl, Nat.le_refl _, by simp⟩
  | cons b rest ih =>
      intro owners hnodup howned
      rw [List.nodup_cons] at hnodup
      have hrest : ∀ block ∈ rest, (owners.erase b).lookup block = some leaseId := by
        intro block hmem
        have hne : block ≠ b := by
          rintro rfl
          exact hnodup.1 hmem
        rw [AList.lookup_erase_ne hne]
        exact howned block (List.mem_cons_of_mem _ hmem)
      obtain ⟨owners', heq, hsize, hlookup⟩ := ih hnodup.2 hrest
      refine ⟨owners', ?_, hsize.trans (AList.size_erase_le _ _), fun block => ?_⟩
      · rw [disownBlocks, if_pos (howned b List.mem_cons_self)]
        exact heq
      · rw [hlookup]
        by_cases hmem : block ∈ rest
        · rw [if_pos hmem, if_pos (List.mem_cons_of_mem _ hmem)]
        · rw [if_neg hmem]
          by_cases hb : block = b
          · rw [hb, AList.lookup_erase, if_pos List.mem_cons_self]
          · rw [AList.lookup_erase_ne hb, if_neg (by simp [hb, hmem])]

/-- A live lease can be released, and nothing else changes. -/
theorem Sound.releaseLocked (h : r.Sound c) {id : ℕ} {lease : BlockLease} (hlookup : r.leases.lookup id = some lease) :
    ∃ r', r.releaseLocked lease = some r' ∧ r'.leases = r.leases.erase id ∧ r'.nextId = r.nextId ∧ r'.Sound c := by
  obtain ⟨hid, hlt, hnodup⟩ := h.ids id lease hlookup
  obtain ⟨ids, hids, hmem⟩ := (h.requests lease.requestId id).mpr ⟨lease, hlookup, rfl⟩
  obtain ⟨hdistinct, -⟩ := h.listed _ _ hids
  obtain ⟨owners', howners', hsize, hdisowned⟩ := disownBlocks_spec id lease.blockIds hnodup fun block hblock =>
    (h.owners block id).mpr ⟨lease, hlookup, hblock⟩
  have hpresent : ¬(r.leases.lookup lease.leaseId = none ∨ lease.leaseId ∉ ids) := by
    rw [hid, hlookup]
    simp [hmem]
  refine ⟨⟨r.nextId, r.leases.erase id, if ids.erase id = [] then r.byRequest.erase lease.requestId
    else r.byRequest.insert lease.requestId (ids.erase id), owners'⟩, ?_, rfl, rfl, ?_⟩
  · subst hid
    unfold BlockLeaseRegistry.releaseLocked
    simp only [hids, Option.bind_eq_bind, Option.bind_some, if_neg hpresent, howners']
    rfl
  have herase : ∀ {other known}, (r.leases.erase id).lookup other = some known ↔
      other ≠ id ∧ r.leases.lookup other = some known := by
    intro other known
    by_cases heq : other = id
    · subst heq
      simp
    · simp [heq, AList.lookup_erase_ne heq]
  have hrequests : ∀ requestId, (if ids.erase id = [] then r.byRequest.erase lease.requestId
      else r.byRequest.insert lease.requestId (ids.erase id)).lookup requestId =
        if requestId = lease.requestId then (if ids.erase id = [] then none else some (ids.erase id))
        else r.byRequest.lookup requestId := by
    intro requestId
    by_cases hempty : ids.erase id = []
    · rw [if_pos hempty, if_pos hempty]
      by_cases heq : requestId = lease.requestId
      · rw [heq, AList.lookup_erase, if_pos rfl]
      · rw [AList.lookup_erase_ne heq, if_neg heq]
    · rw [if_neg hempty, if_neg hempty]
      by_cases heq : requestId = lease.requestId
      · rw [heq, AList.lookup_insert, if_pos rfl]
      · rw [AList.lookup_insert_ne heq, if_neg heq]
  constructor
  · intro other known hknown
    exact h.ids other known (herase.mp hknown).2
  · intro block other
    rw [hdisowned]
    simp only [herase]
    by_cases hblock : block ∈ lease.blockIds
    · rw [if_pos hblock]
      have howner := (h.owners block id).mpr ⟨lease, hlookup, hblock⟩
      constructor
      · intro hnone
        cases hnone
      · rintro ⟨known, ⟨hne, hknown⟩, hin⟩
        have hother := (h.owners block other).mpr ⟨known, hknown, hin⟩
        rw [howner, Option.some.injEq] at hother
        exact absurd hother.symm hne
    · rw [if_neg hblock, h.owners]
      constructor
      · rintro ⟨known, hknown, hin⟩
        refine ⟨known, ⟨?_, hknown⟩, hin⟩
        rintro rfl
        rw [hlookup, Option.some.injEq] at hknown
        rw [← hknown] at hin
        exact hblock hin
      · rintro ⟨known, ⟨-, hknown⟩, hin⟩
        exact ⟨known, hknown, hin⟩
  · intro requestId other
    rw [hrequests]
    simp only [herase]
    by_cases heq : requestId = lease.requestId
    · subst heq
      rw [if_pos rfl]
      have hlisted : other ∈ ids ↔ ∃ known, r.leases.lookup other = some known ∧ known.requestId = lease.requestId := by
        rw [← h.requests]
        simp [hids]
      have hremaining : other ∈ ids.erase id ↔ other ≠ id ∧ other ∈ ids := hdistinct.mem_erase_iff
      by_cases hempty : ids.erase id = []
      · rw [if_pos hempty]
        rw [hempty] at hremaining
        simp only [List.not_mem_nil, false_iff, not_and, hlisted] at hremaining
        constructor
        · rintro ⟨_, hnone, -⟩
          cases hnone
        · rintro ⟨known, ⟨hne, hknown⟩, hsame⟩
          exact absurd ⟨known, hknown, hsame⟩ (hremaining hne)
      · rw [if_neg hempty]
        simp only [Option.some.injEq, exists_eq_left', hremaining, hlisted]
        constructor
        · rintro ⟨hne, known, hknown, hsame⟩
          exact ⟨known, ⟨hne, hknown⟩, hsame⟩
        · rintro ⟨known, ⟨hne, hknown⟩, hsame⟩
          exact ⟨hne, known, hknown, hsame⟩
    · rw [if_neg heq, h.requests]
      constructor
      · rintro ⟨known, hknown, hsame⟩
        refine ⟨known, ⟨?_, hknown⟩, hsame⟩
        rintro rfl
        rw [hlookup, Option.some.injEq] at hknown
        rw [← hknown] at hsame
        exact heq hsame.symm
      · rintro ⟨known, ⟨-, hknown⟩, hsame⟩
        exact ⟨known, hknown, hsame⟩
  · intro requestId known hknown
    rw [hrequests] at hknown
    split at hknown
    · split at hknown
      · cases hknown
      · rename_i hmore
        cases hknown
        exact ⟨hdistinct.erase id, hmore⟩
    · exact h.listed requestId known hknown
  · exact (AList.size_erase_le _ _).trans h.leaseBound
  · exact hsize.trans h.blockBound

theorem Sound.lookup_setState (h : r.Sound c) {id : ℕ} {lease : BlockLease} (hlookup : r.leases.lookup id = some lease)
    (state : LeaseState) (other : ℕ) : (r.setState lease state).leases.lookup other =
      if other = id then some { lease with state := state } else r.leases.lookup other := by
  obtain ⟨hid, -, -⟩ := h.ids id lease hlookup
  rw [BlockLeaseRegistry.setState, hid]
  by_cases heq : other = id
  · rw [heq, AList.lookup_insert, if_pos rfl]
  · rw [AList.lookup_insert_ne heq, if_neg heq]

/-- Apart from the state of one, the leases are the same. -/
theorem Sound.setState (h : r.Sound c) {id : ℕ} {lease : BlockLease} (hlookup : r.leases.lookup id = some lease)
    (state : LeaseState) : (r.setState lease state).Sound c ∧
      ∀ other requestId, (∃ known, (r.setState lease state).leases.lookup other = some known ∧
        known.requestId = requestId) ↔ ∃ known, r.leases.lookup other = some known ∧ known.requestId = requestId := by
  obtain ⟨hid, hlt, hnodup⟩ := h.ids id lease hlookup
  have hleases := h.lookup_setState hlookup state
  have hsame : ∀ other (p : List ℕ → String → Prop),
      (∃ known, (r.setState lease state).leases.lookup other = some known ∧ p known.blockIds known.requestId) ↔
        ∃ known, r.leases.lookup other = some known ∧ p known.blockIds known.requestId := by
    intro other p
    rw [hleases]
    by_cases heq : other = id
    · rw [if_pos heq, heq, hlookup]
      simp
    · rw [if_neg heq]
  have hsize : (r.setState lease state).leases.size = r.leases.size := by
    rw [BlockLeaseRegistry.setState, hid]
    exact AList.size_insert_of_lookup hlookup _
  refine ⟨⟨?_, ?_, ?_, h.listed, ?_, h.blockBound⟩, fun other requestId => hsame other fun _ request => request = requestId⟩
  · intro other known hknown
    rw [hleases] at hknown
    split at hknown
    · rename_i heq
      cases hknown
      rw [heq]
      exact ⟨hid, hlt, hnodup⟩
    · exact h.ids other known hknown
  · exact fun block other => (h.owners block other).trans (hsame other fun blockIds _ => block ∈ blockIds).symm
  · exact fun requestId other => (h.requests requestId other).trans (hsame other fun _ request => request = requestId).symm
  · rw [hsize]
    exact h.leaseBound

theorem mem_inState {state : LeaseState} {leaseIds : List ℕ} {lease : BlockLease} :
    lease ∈ r.inState state leaseIds ↔ (∃ id ∈ leaseIds, r.leases.lookup id = some lease) ∧ lease.state = state := by
  simp [inState, List.mem_filter, List.mem_filterMap]

end BlockLeaseRegistry

end SparkCache.Streaming
