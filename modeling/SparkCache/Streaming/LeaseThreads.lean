import SparkCache.Lib.Run
import SparkCache.Lib.Threads
import SparkCache.Streaming.BlockLeases

/-!
# Threads that lease blocks

Every call of the registry is a sequence of lock sections, with the calls of completion fences between
them. A lease goes when it was never submitted, or when its fence is known to be done.
-/
namespace SparkCache.Streaming

/-! ## Threads -/

/-- How a submission ends: with a fence, with an exception, or with one that is not caught. -/
inductive Submission where
  | fence
  | failed
  | interrupted

/-- What a fence says: whether it is done, or an exception. `synchronize` returns when it is done. -/
inductive FenceAnswer where
  | done
  | pending
  | raised
  deriving DecidableEq

/-- A call of the registry, or what is left of one. -/
inductive LeaseOp where
  | tryReserve (requestId : String) (blockIds : List ℤ)
  | submit (leaseId : ℕ) (submission : Submission)
  | cancelBeforeSubmit (leaseId : ℕ)
  | poll
  | takeFinished (finishedRequestIds : List String)
  | abortRequest (requestId : String) (wait : Bool)
  | abortAll
  /-- the fences left to query, those that are done, and the requests that `take_finished` asks for -/
  | query (armed completed : List ℕ) (finished : Option (List String))
  /-- the end of `take_finished` -/
  | ready (finishedRequestIds : List String)
  /-- the requests that are left to abort -/
  | abortEach (requestIds : List String)
  /-- the fences left to synchronize, all armed leases, and the requests left to abort -/
  | synchronize (left armed : List ℕ) (after : List String)

/-- The registry, with what was seen of it: the number of fence calls so far, the leases that were
submitted, those whose submission is unknown, those whose fence was done, the requests that were
reported with the next lease at that time, and whether a release has failed. -/
structure LeaseWorld where
  registry : BlockLeaseRegistry
  fenceCalls : ℕ
  submitted : Finset ℕ
  unknown : Finset ℕ
  settled : Finset ℕ
  reported : List (String × ℕ)
  corrupted : Bool

namespace LeaseWorld

def initial : LeaseWorld := ⟨.new, 0, ∅, ∅, ∅, [], false⟩

def release (w : LeaseWorld) (lease : BlockLease) : LeaseWorld :=
  match w.registry.releaseLocked lease with
  | some registry => { w with registry := registry }
  | none => { w with corrupted := true }

def releaseAll (w : LeaseWorld) (leases : List BlockLease) : LeaseWorld := leases.foldl release w

/-- The release of leases that are still there. -/
def retire (w : LeaseWorld) : List ℕ → LeaseWorld
  | [] => w
  | leaseId :: rest =>
      match w.registry.leases.lookup leaseId with
      | none => w.retire rest
      | some lease => (w.release lease).retire rest

/-- A submission of a lease, with the state that it ends in. -/
def enter (w : LeaseWorld) (lease : BlockLease) (state : LeaseState) (unknown : Finset ℕ) : LeaseWorld :=
  { w with
    registry := w.registry.setState lease state
    submitted := insert lease.leaseId w.submitted
    unknown := unknown }

/-- `_submit`: the callback runs under the lock. -/
def submit (w : LeaseWorld) (leaseId : ℕ) (submission : Submission) : LeaseWorld :=
  match w.registry.leases.lookup leaseId with
  | none => w
  | some lease =>
      if lease.state ≠ .reserved then w
      else
        match submission with
        | .fence => w.enter lease .armed w.unknown
        | .failed => w.enter lease .submissionUnknown (insert leaseId w.unknown)
        | .interrupted => w.enter lease .submitting (insert leaseId w.unknown)

/-- `_cancel_before_submit` -/
def cancelBeforeSubmit (w : LeaseWorld) (leaseId : ℕ) : LeaseWorld :=
  match w.registry.leases.lookup leaseId with
  | none => w
  | some lease => if lease.state ≠ .reserved then w else w.release lease

/-- A call of a fence, with its answer. -/
def callFence (w : LeaseWorld) (leaseId : ℕ) (answer : FenceAnswer) : LeaseWorld :=
  { w with
    fenceCalls := w.fenceCalls + 1
    settled := if answer = .done then insert leaseId w.settled else w.settled }

/-- The requests without leases, at the end of `take_finished`. -/
def report (w : LeaseWorld) (finishedRequestIds : List String) : LeaseWorld :=
  let ready := finishedRequestIds.filter fun requestId => w.registry.byRequest.lookup requestId = none
  { w with reported := w.reported ++ ready.map fun requestId => (requestId, w.registry.nextId) }

/-- The first lock section of `abort_request`. -/
def beginAbort (w : LeaseWorld) (requestId : String) (wait : Bool) (after : List String) :
    LeaseWorld × List LeaseOp :=
  let leaseIds := (w.registry.byRequest.lookup requestId).getD []
  let armed := (w.registry.inState .armed leaseIds).map BlockLease.leaseId
  let unknown := w.registry.inState .submissionUnknown leaseIds
  let w := w.releaseAll (w.registry.inState .reserved leaseIds)
  if unknown ≠ [] then (w, [])
  else if wait then (w, [.synchronize armed armed after])
  else (w, [.query armed [] none])

/-- A step of a thread; `fence` tells what the calls of fences answer. -/
def effect (c : LeaseCapacity) (fence : ℕ → ℕ → FenceAnswer) (op : LeaseOp) (w : LeaseWorld) :
    LeaseWorld × List LeaseOp :=
  match op with
  | .tryReserve requestId blockIds => ({ w with registry := w.registry.tryReserve c requestId blockIds }, [])
  | .submit leaseId submission => (w.submit leaseId submission, [])
  | .cancelBeforeSubmit leaseId => (w.cancelBeforeSubmit leaseId, [])
  | .poll =>
      (w, [.query ((w.registry.inState .armed (w.registry.leases.keys)).map BlockLease.leaseId) [] none])
  | .takeFinished finishedRequestIds =>
      (w, [.query ((w.registry.inState .armed (w.registry.leases.keys)).map BlockLease.leaseId) []
        (some finishedRequestIds)])
  | .query (leaseId :: rest) completed finished =>
      match fence w.fenceCalls leaseId with
      | .raised => (w.callFence leaseId .raised, [])
      | .pending => (w.callFence leaseId .pending, [.query rest completed finished])
      | .done => (w.callFence leaseId .done, [.query rest (completed ++ [leaseId]) finished])
  | .query [] completed finished => (w.retire completed, (finished.map LeaseOp.ready).toList)
  | .ready finishedRequestIds => (w.report finishedRequestIds, [])
  | .abortRequest requestId wait => w.beginAbort requestId wait []
  | .abortAll => (w, [.abortEach w.registry.byRequest.keys])
  | .abortEach [] => (w, [])
  | .abortEach (requestId :: rest) => w.beginAbort requestId true rest
  | .synchronize (leaseId :: rest) armed after =>
      match fence w.fenceCalls leaseId with
      | .done => (w.callFence leaseId .done, [.synchronize rest armed after])
      | _ => (w.callFence leaseId .raised, [])
  | .synchronize [] armed after => (w.retire armed, [.abortEach after])

end LeaseWorld

/-! ## What the lock sections keep -/

namespace LeaseWorld
open BlockLeaseRegistry
variable {c : LeaseCapacity} {w w' : LeaseWorld}

structure Holds (c : LeaseCapacity) (w : LeaseWorld) : Prop where
  sound : w.registry.Sound c
  intact : w.corrupted = false
  fresh : ∀ id ∈ w.submitted, id < w.registry.nextId
  reserved : ∀ id lease, w.registry.leases.lookup id = some lease → (lease.state = .reserved ↔ id ∉ w.submitted)
  armed : ∀ id lease, w.registry.leases.lookup id = some lease → lease.state = .armed → id ∉ w.unknown
  kept : ∀ id ∈ w.unknown, id ∈ w.submitted ∧ w.registry.leases.lookup id ≠ none
  gone : ∀ id, id < w.registry.nextId → w.registry.leases.lookup id = none → id ∈ w.submitted → id ∈ w.settled
  reported : ∀ requestId n, (requestId, n) ∈ w.reported → ∀ id lease, w.registry.leases.lookup id = some lease →
    lease.requestId = requestId → n ≤ id
  counted : ∀ requestId n, (requestId, n) ∈ w.reported → n ≤ w.registry.nextId

/-- If the lease is still there, it is armed. -/
structure Known (w : LeaseWorld) (id : ℕ) : Prop where
  issued : id < w.registry.nextId
  submitted : id ∈ w.submitted
  certain : id ∉ w.unknown
  armed : ∀ lease, w.registry.leases.lookup id = some lease → lease.state = .armed

/-- What other threads may rely on. -/
structure Extends (w w' : LeaseWorld) : Prop where
  settled : w.settled ⊆ w'.settled
  known : ∀ id, w.Known id → w'.Known id

theorem Extends.refl (w : LeaseWorld) : w.Extends w := ⟨Finset.Subset.refl _, fun _ h => h⟩

theorem Extends.trans {w'' : LeaseWorld} (h : w.Extends w') (h' : w'.Extends w'') : w.Extends w'' :=
  ⟨h.settled.trans h'.settled, fun id hid => h'.known id (h.known id hid)⟩

/-- A lease that was not submitted, or whose fence was done, is released. -/
theorem Holds.release (h : w.Holds c) {id : ℕ} {lease : BlockLease} (hlookup : w.registry.leases.lookup id = some lease)
    (hdone : id ∈ w.submitted → id ∈ w.settled) (hcertain : id ∉ w.unknown) :
    (w.release lease).Holds c ∧ w.Extends (w.release lease) ∧
      (w.release lease).registry.leases = w.registry.leases.erase id ∧ (w.release lease).submitted = w.submitted ∧
      (w.release lease).unknown = w.unknown ∧ (w.release lease).settled = w.settled := by
  obtain ⟨r', hr', hleases, hnext, hsound⟩ := h.sound.releaseLocked hlookup
  rw [LeaseWorld.release, hr']
  have herase : ∀ {other known}, r'.leases.lookup other = some known →
      other ≠ id ∧ w.registry.leases.lookup other = some known := by
    intro other known hknown
    rw [hleases] at hknown
    exact AList.lookup_erase_some hknown
  refine ⟨⟨hsound, h.intact, ?_, ?_, ?_, ?_, ?_, ?_, ?_⟩, ⟨Finset.Subset.refl _, ?_⟩, hleases, rfl, rfl, rfl⟩
  · intro other hother
    dsimp only
    rw [hnext]
    exact h.fresh other hother
  · exact fun other known hknown => h.reserved other known (herase hknown).2
  · exact fun other known hknown => h.armed other known (herase hknown).2
  · intro other hother
    refine ⟨(h.kept other hother).1, ?_⟩
    have hne : other ≠ id := by
      rintro rfl
      exact hcertain hother
    dsimp only
    rw [hleases, AList.lookup_erase_ne hne]
    exact (h.kept other hother).2
  · intro other hlt hnone hsubmitted
    dsimp only at hlt hnone
    rw [hnext] at hlt
    by_cases heq : other = id
    · subst heq
      exact hdone hsubmitted
    · rw [hleases, AList.lookup_erase_ne heq] at hnone
      exact h.gone other hlt hnone hsubmitted
  · exact fun requestId n hmem other known hknown => h.reported requestId n hmem other known (herase hknown).2
  · intro requestId n hmem
    dsimp only
    rw [hnext]
    exact h.counted requestId n hmem
  · intro other hother
    refine ⟨?_, hother.submitted, hother.certain, fun known hknown => hother.armed known (herase hknown).2⟩
    dsimp only
    rw [hnext]
    exact hother.issued

/-- Known leases whose fences are done are released. -/
theorem Holds.retire (ids : List ℕ) : ∀ {w : LeaseWorld}, w.Holds c →
    (∀ id ∈ ids, w.Known id ∧ id ∈ w.settled) → (w.retire ids).Holds c ∧ w.Extends (w.retire ids) := by
  induction ids with
  | nil => exact fun {w} h _ => ⟨h, Extends.refl w⟩
  | cons id rest ih =>
      intro w h hids
      obtain ⟨hknown, hsettled⟩ := hids id List.mem_cons_self
      have hrest : ∀ other ∈ rest, w.Known other ∧ other ∈ w.settled := fun other hother =>
        hids other (List.mem_cons_of_mem _ hother)
      rw [LeaseWorld.retire]
      split
      · exact ih h hrest
      · rename_i lease hlookup
        obtain ⟨hholds, hextends, -, -, -, hsame⟩ := h.release hlookup (fun _ => hsettled) hknown.certain
        obtain ⟨hrestHolds, hrestExtends⟩ := ih hholds fun other hother =>
          ⟨hextends.known other (hrest other hother).1, hextends.settled (hrest other hother).2⟩
        exact ⟨hrestHolds, hextends.trans hrestExtends⟩

/-- Different leases that were not submitted are released. -/
theorem Holds.releaseAll (leases : List BlockLease) : ∀ {w : LeaseWorld}, w.Holds c →
    (leases.map BlockLease.leaseId).Nodup →
    (∀ lease ∈ leases, w.registry.leases.lookup lease.leaseId = some lease ∧ lease.state = .reserved) →
    (w.releaseAll leases).Holds c ∧ w.Extends (w.releaseAll leases) := by
  induction leases with
  | nil => exact fun {w} h _ _ => ⟨h, Extends.refl w⟩
  | cons lease rest ih =>
      intro w h hnodup hleases
      rw [List.map_cons, List.nodup_cons] at hnodup
      obtain ⟨hlookup, hreserved⟩ := hleases lease List.mem_cons_self
      have hunsubmitted := (h.reserved _ lease hlookup).mp hreserved
      have hcertain : lease.leaseId ∉ w.unknown := fun hmem => hunsubmitted (h.kept _ hmem).1
      obtain ⟨hholds, hextends, herased, -, -, -⟩ :=
        h.release hlookup (fun hmem => absurd hmem hunsubmitted) hcertain
      obtain ⟨hrestHolds, hrestExtends⟩ := ih hholds hnodup.2 fun other hother => by
        obtain ⟨hother', hstate⟩ := hleases other (List.mem_cons_of_mem _ hother)
        refine ⟨?_, hstate⟩
        have hne : other.leaseId ≠ lease.leaseId := fun heq =>
          hnodup.1 (heq ▸ List.mem_map_of_mem hother)
        rw [herased, AList.lookup_erase_ne hne]
        exact hother'
      exact ⟨hrestHolds, hextends.trans hrestExtends⟩

/-- A reservation makes a lease that was not submitted. -/
theorem Holds.tryReserve (h : w.Holds c) (requestId : String) (blockIds : List ℤ) :
    ({ w with registry := w.registry.tryReserve c requestId blockIds } : LeaseWorld).Holds c ∧
      w.Extends { w with registry := w.registry.tryReserve c requestId blockIds } := by
  have hsound := h.sound.tryReserve requestId blockIds
  obtain hsame | ⟨blocks, -, -, -, -, heq⟩ := tryReserve_spec c w.registry requestId blockIds
  · rw [hsame]
    exact ⟨h, Extends.refl w⟩
  have hnext : (w.registry.tryReserve c requestId blockIds).nextId = w.registry.nextId + 1 := by rw [heq]
  have hlookup : ∀ id, (w.registry.tryReserve c requestId blockIds).leases.lookup id =
      if id = w.registry.nextId then some ⟨w.registry.nextId, requestId, blocks, .reserved⟩
      else w.registry.leases.lookup id := by
    intro id
    rw [heq]
    by_cases hid : id = w.registry.nextId
    · rw [hid, AList.lookup_insert, if_pos rfl]
    · rw [AList.lookup_insert_ne hid, if_neg hid]
  have hunsubmitted : w.registry.nextId ∉ w.submitted := fun hmem => absurd (h.fresh _ hmem) (Nat.lt_irrefl _)
  constructor
  · constructor
    · exact hsound
    · exact h.intact
    · intro id hid
      have hlt := h.fresh id hid
      dsimp only
      omega
    · intro id lease hlease
      dsimp only at hlease
      rw [hlookup] at hlease
      split at hlease
      · rename_i hid
        cases hlease
        simp [hid, hunsubmitted]
      · exact h.reserved id lease hlease
    · intro id lease hlease harmed
      dsimp only at hlease
      rw [hlookup] at hlease
      split at hlease
      · cases hlease
        cases harmed
      · exact h.armed id lease hlease harmed
    · intro id hid
      refine ⟨(h.kept id hid).1, ?_⟩
      dsimp only
      rw [hlookup]
      split
      · simp
      · exact (h.kept id hid).2
    · intro id hlt hnone hsubmitted
      dsimp only at hnone
      rw [hlookup] at hnone
      split at hnone
      · cases hnone
      · exact h.gone id (h.fresh id hsubmitted) hnone hsubmitted
    · intro reported n hmem id lease hlease hrequest
      dsimp only at hlease
      rw [hlookup] at hlease
      split at hlease
      · rename_i hid
        rw [hid]
        exact h.counted reported n hmem
      · exact h.reported reported n hmem id lease hlease hrequest
    · intro reported n hmem
      have hle := h.counted reported n hmem
      dsimp only
      omega
  · refine ⟨Finset.Subset.refl _, fun id hid => ⟨?_, hid.submitted, hid.certain, ?_⟩⟩
    · have hlt := hid.issued
      dsimp only
      omega
    · intro lease hlease
      dsimp only at hlease
      rw [hlookup, if_neg (by have := hid.issued; omega)] at hlease
      exact hid.armed lease hlease

/-- A submission changes the state of a lease, and what is known of its outcome. -/
theorem Holds.enter (h : w.Holds c) {id : ℕ} {lease : BlockLease} {state : LeaseState} {unknown : Finset ℕ}
    (hlookup : w.registry.leases.lookup id = some lease) (hreserved : lease.state = .reserved)
    (hstate : state ≠ .reserved)
    (hunknown : (state = .armed ∧ unknown = w.unknown) ∨ (state ≠ .armed ∧ unknown = insert id w.unknown)) :
    (w.enter lease state unknown).Holds c ∧ w.Extends (w.enter lease state unknown) := by
  obtain ⟨hid, hlt, -⟩ := h.sound.ids id lease hlookup
  have hunsubmitted := (h.reserved id lease hlookup).mp hreserved
  have hcertain : id ∉ w.unknown := fun hmem => hunsubmitted (h.kept id hmem).1
  have hother : ∀ {other}, other ∈ unknown → other ≠ id → other ∈ w.unknown := by
    intro other hmem hne
    obtain ⟨-, rfl⟩ | ⟨-, rfl⟩ := hunknown
    · exact hmem
    · exact Finset.mem_of_mem_insert_of_ne hmem hne
  have hleases := h.sound.lookup_setState hlookup state
  obtain ⟨hsound, hrequests⟩ := h.sound.setState hlookup state
  constructor
  · unfold LeaseWorld.enter
    rw [hid]
    constructor
    · exact hsound
    · exact h.intact
    · intro other hmem
      obtain rfl | hmem := Finset.mem_insert.mp hmem
      · exact hlt
      · exact h.fresh other hmem
    · intro other known hknown
      dsimp only at hknown ⊢
      rw [hleases] at hknown
      split at hknown
      · rename_i heq
        cases hknown
        simp [heq, hstate]
      · rename_i hne
        rw [Finset.mem_insert, or_iff_right hne]
        exact h.reserved other known hknown
    · intro other known hknown harmed hmem
      dsimp only at hknown hmem
      rw [hleases] at hknown
      split at hknown
      · rename_i heq
        cases hknown
        obtain ⟨-, hunknown⟩ | ⟨hnot, -⟩ := hunknown
        · rw [hunknown, heq] at hmem
          exact hcertain hmem
        · exact hnot harmed
      · rename_i hne
        exact h.armed other known hknown harmed (hother hmem hne)
    · intro other hmem
      dsimp only at hmem ⊢
      rw [hleases, Finset.mem_insert]
      by_cases heq : other = id
      · simp [heq]
      · rw [if_neg heq]
        obtain ⟨hsubmitted, hlive⟩ := h.kept other (hother hmem heq)
        exact ⟨Or.inr hsubmitted, hlive⟩
    · intro other hissued hnone hsubmitted
      dsimp only at hissued hnone hsubmitted ⊢
      rw [hleases] at hnone
      split at hnone
      · cases hnone
      · rename_i hne
        exact h.gone other hissued hnone (Finset.mem_of_mem_insert_of_ne hsubmitted hne)
    · intro requestId n hmem other known hknown hrequest
      obtain ⟨before, hbefore, hsame⟩ := (hrequests other requestId).mp ⟨known, hknown, hrequest⟩
      exact h.reported requestId n hmem other before hbefore hsame
    · exact h.counted
  · refine ⟨Finset.Subset.refl _, fun other hknown => ?_⟩
    have hne : other ≠ id := by
      rintro rfl
      exact hunsubmitted hknown.submitted
    refine ⟨hknown.issued, Finset.mem_insert_of_mem hknown.submitted, fun hmem => hknown.certain (hother hmem hne), ?_⟩
    intro known hlive
    dsimp only [LeaseWorld.enter] at hlive
    rw [hleases, if_neg hne] at hlive
    exact hknown.armed known hlive

theorem Holds.submit (h : w.Holds c) (id : ℕ) (submission : Submission) :
    (w.submit id submission).Holds c ∧ w.Extends (w.submit id submission) := by
  unfold LeaseWorld.submit
  cases hlookup : w.registry.leases.lookup id with
  | none => exact ⟨h, Extends.refl w⟩
  | some lease =>
      by_cases hreserved : lease.state = .reserved
      · dsimp only
        rw [if_neg (not_not.mpr hreserved)]
        cases submission with
        | fence => exact h.enter hlookup hreserved (by decide) (Or.inl ⟨rfl, rfl⟩)
        | failed => exact h.enter hlookup hreserved (by decide) (Or.inr ⟨by decide, rfl⟩)
        | interrupted => exact h.enter hlookup hreserved (by decide) (Or.inr ⟨by decide, rfl⟩)
      · dsimp only
        rw [if_pos hreserved]
        exact ⟨h, Extends.refl w⟩

theorem Holds.cancelBeforeSubmit (h : w.Holds c) (id : ℕ) :
    (w.cancelBeforeSubmit id).Holds c ∧ w.Extends (w.cancelBeforeSubmit id) := by
  unfold LeaseWorld.cancelBeforeSubmit
  cases hlookup : w.registry.leases.lookup id with
  | none => exact ⟨h, Extends.refl w⟩
  | some lease =>
      by_cases hreserved : lease.state = .reserved
      · dsimp only
        rw [if_neg (not_not.mpr hreserved)]
        have hunsubmitted := (h.reserved id lease hlookup).mp hreserved
        obtain ⟨hholds, hextends, -⟩ := h.release hlookup (fun hmem => absurd hmem hunsubmitted)
          fun hmem => hunsubmitted (h.kept id hmem).1
        exact ⟨hholds, hextends⟩
      · dsimp only
        rw [if_pos hreserved]
        exact ⟨h, Extends.refl w⟩

theorem Holds.callFence (h : w.Holds c) (id : ℕ) (answer : FenceAnswer) :
    (w.callFence id answer).Holds c ∧ w.Extends (w.callFence id answer) := by
  have hgrown : w.settled ⊆ if answer = .done then insert id w.settled else w.settled := by
    split
    · exact Finset.subset_insert _ _
    · exact Finset.Subset.refl _
  refine ⟨⟨h.sound, h.intact, h.fresh, h.reserved, h.armed, h.kept, ?_, h.reported, h.counted⟩, hgrown, fun other hknown =>
    ⟨hknown.issued, hknown.submitted, hknown.certain, hknown.armed⟩⟩
  intro other hlt hnone hsubmitted
  exact hgrown (h.gone other hlt hnone hsubmitted)

/-- A request without leases is reported. -/
theorem Holds.report (h : w.Holds c) (finished : List String) :
    (w.report finished).Holds c ∧ w.Extends (w.report finished) := by
  refine ⟨?_, Finset.Subset.refl _, fun id hknown => ⟨hknown.issued, hknown.submitted, hknown.certain, hknown.armed⟩⟩
  refine ⟨h.sound, h.intact, h.fresh, h.reserved, h.armed, h.kept, h.gone, ?_, ?_⟩
  · intro requestId n hmem id lease hlookup hrequest
    obtain hmem | hmem := List.mem_append.mp hmem
    · exact h.reported requestId n hmem id lease hlookup hrequest
    · obtain ⟨r, hr, heq⟩ := List.mem_map.mp hmem
      rw [List.mem_filter, decide_eq_true_iff] at hr
      cases heq
      obtain ⟨ids, hids, -⟩ := (h.sound.requests requestId id).mpr ⟨lease, hlookup, hrequest⟩
      rw [hr.2] at hids
      cases hids
  · intro requestId n hmem
    obtain hmem | hmem := List.mem_append.mp hmem
    · exact h.counted requestId n hmem
    · obtain ⟨r, -, heq⟩ := List.mem_map.mp hmem
      cases heq
      exact Nat.le_refl _

/-- An armed lease is known. -/
theorem Holds.known (h : w.Holds c) {id : ℕ} {lease : BlockLease} (hlookup : w.registry.leases.lookup id = some lease)
    (harmed : lease.state = .armed) : w.Known id := by
  refine ⟨(h.sound.ids id lease hlookup).2.1, ?_, h.armed id lease hlookup harmed, ?_⟩
  · by_contra hunsubmitted
    have hreserved := (h.reserved id lease hlookup).mpr hunsubmitted
    rw [harmed] at hreserved
    cases hreserved
  · intro known hknown
    rw [hlookup, Option.some.injEq] at hknown
    rw [← hknown]
    exact harmed

theorem Holds.known_inState (h : w.Holds c) {ids : List ℕ} :
    ∀ id ∈ (w.registry.inState .armed ids).map BlockLease.leaseId, w.Known id := by
  intro id hid
  obtain ⟨lease, hlease, rfl⟩ := List.mem_map.mp hid
  obtain ⟨⟨other, -, hlookup⟩, harmed⟩ := mem_inState.mp hlease
  rw [(h.sound.ids other lease hlookup).1]
  exact h.known hlookup harmed

/-! ## Calls that go on -/

/-- What a call knows of the leases it goes on with. -/
def Justified (w : LeaseWorld) : LeaseOp → Prop
  | .query rest completed _ => (∀ id ∈ rest, w.Known id) ∧ ∀ id ∈ completed, w.Known id ∧ id ∈ w.settled
  | .synchronize left armed _ => ∀ id ∈ armed, w.Known id ∧ (id ∈ left ∨ id ∈ w.settled)
  | _ => True

theorem Justified.mono {op : LeaseOp} (h : w.Justified op) (hextends : w.Extends w') : w'.Justified op := by
  cases op with
  | query rest completed finished =>
      exact ⟨fun id hid => hextends.known id (h.1 id hid), fun id hid =>
        ⟨hextends.known id (h.2 id hid).1, hextends.settled (h.2 id hid).2⟩⟩
  | synchronize left armed after =>
      exact fun id hid => ⟨hextends.known id (h id hid).1, (h id hid).2.imp_right fun hsettled => hextends.settled hsettled⟩
  | _ => trivial

theorem ids_inState_sublist (h : w.registry.Sound c) (state : LeaseState) (ids : List ℕ) :
    ((w.registry.inState state ids).map BlockLease.leaseId).Sublist ids := by
  refine (List.filter_sublist.map BlockLease.leaseId).trans ?_
  induction ids with
  | nil => exact List.Sublist.refl _
  | cons id rest ih =>
      rw [List.filterMap_cons]
      split
      · exact ih.cons id
      · rename_i lease hlookup
        rw [List.map_cons, (h.ids id lease hlookup).1]
        exact ih.cons_cons id

theorem Holds.beginAbort (h : w.Holds c) (requestId : String) (wait : Bool) (after : List String) :
    (w.beginAbort requestId wait after).1.Holds c ∧ w.Extends (w.beginAbort requestId wait after).1 ∧
      ∀ op ∈ (w.beginAbort requestId wait after).2, (w.beginAbort requestId wait after).1.Justified op := by
  unfold LeaseWorld.beginAbort
  set ids := (w.registry.byRequest.lookup requestId).getD [] with hids
  have hknown : ∀ id ∈ (w.registry.inState .armed ids).map BlockLease.leaseId, w.Known id := h.known_inState
  have hnodup := (h.sound.nodup_getD requestId).sublist (ids_inState_sublist h.sound .reserved ids)
  obtain ⟨hholds, hextends⟩ := h.releaseAll (w.registry.inState .reserved ids) hnodup fun lease hlease => by
    obtain ⟨⟨id, -, hlookup⟩, hreserved⟩ := mem_inState.mp hlease
    rw [(h.sound.ids id lease hlookup).1]
    exact ⟨hlookup, hreserved⟩
  dsimp only
  split
  · exact ⟨hholds, hextends, by simp⟩
  · split
    · refine ⟨hholds, hextends, fun op hop => ?_⟩
      rw [List.mem_singleton] at hop
      rw [hop]
      exact fun id hid => ⟨hextends.known id (hknown id hid), Or.inl hid⟩
    · refine ⟨hholds, hextends, fun op hop => ?_⟩
      rw [List.mem_singleton] at hop
      rw [hop]
      exact ⟨fun id hid => hextends.known id (hknown id hid), by simp⟩

/-- A step of a thread keeps the invariant and what other threads know. -/
theorem Holds.effect (h : w.Holds c) (fence : ℕ → ℕ → FenceAnswer) {op : LeaseOp} (hop : w.Justified op) :
    (w.effect c fence op).1.Holds c ∧ w.Extends (w.effect c fence op).1 ∧
      ∀ more ∈ (w.effect c fence op).2, (w.effect c fence op).1.Justified more := by
  cases op with
  | tryReserve requestId blockIds =>
      obtain ⟨hholds, hextends⟩ := h.tryReserve requestId blockIds
      exact ⟨hholds, hextends, by simp [LeaseWorld.effect]⟩
  | submit id submission =>
      obtain ⟨hholds, hextends⟩ := h.submit id submission
      exact ⟨hholds, hextends, by simp [LeaseWorld.effect]⟩
  | cancelBeforeSubmit id =>
      obtain ⟨hholds, hextends⟩ := h.cancelBeforeSubmit id
      exact ⟨hholds, hextends, by simp [LeaseWorld.effect]⟩
  | poll =>
      refine ⟨h, Extends.refl w, fun op hop => ?_⟩
      rw [LeaseWorld.effect, List.mem_singleton] at hop
      rw [hop]
      exact ⟨h.known_inState, by simp⟩
  | takeFinished finished =>
      refine ⟨h, Extends.refl w, fun op hop => ?_⟩
      rw [LeaseWorld.effect, List.mem_singleton] at hop
      rw [hop]
      exact ⟨h.known_inState, by simp⟩
  | abortRequest requestId wait => exact h.beginAbort requestId wait []
  | abortAll =>
      refine ⟨h, Extends.refl w, fun op hop => ?_⟩
      rw [LeaseWorld.effect, List.mem_singleton] at hop
      rw [hop]
      trivial
  | ready finished =>
      obtain ⟨hholds, hextends⟩ := h.report finished
      exact ⟨hholds, hextends, by simp [LeaseWorld.effect]⟩
  | abortEach requests =>
      cases requests with
      | nil => exact ⟨h, Extends.refl w, by simp [LeaseWorld.effect]⟩
      | cons requestId rest => exact h.beginAbort requestId true rest
  | query rest completed finished =>
      obtain ⟨hrest, hcompleted⟩ := hop
      cases rest with
      | nil =>
          obtain ⟨hholds, hextends⟩ := Holds.retire completed h hcompleted
          refine ⟨hholds, hextends, fun op hop => ?_⟩
          cases finished with
          | none => cases hop
          | some requests =>
              have heq : op = .ready requests := by simpa [LeaseWorld.effect] using hop
              rw [heq]
              trivial
      | cons id rest =>
          obtain ⟨hholds, hextends⟩ := h.callFence id (fence w.fenceCalls id)
          have hknown := hextends.known id (hrest id List.mem_cons_self)
          unfold LeaseWorld.effect
          dsimp only
          split <;> rename_i hanswer <;> rw [hanswer] at hholds hextends hknown
          · exact ⟨hholds, hextends, by simp⟩
          · refine ⟨hholds, hextends, fun op hop => ?_⟩
            rw [List.mem_singleton] at hop
            rw [hop]
            have hbefore : w.Justified (.query rest completed finished) :=
              ⟨fun other hother => hrest other (List.mem_cons_of_mem _ hother), hcompleted⟩
            exact hbefore.mono hextends
          · refine ⟨hholds, hextends, fun op hop => ?_⟩
            rw [List.mem_singleton] at hop
            rw [hop]
            refine ⟨fun other hother => hextends.known other (hrest other (List.mem_cons_of_mem _ hother)), ?_⟩
            intro other hother
            obtain hother | hother := List.mem_append.mp hother
            · exact ⟨hextends.known other (hcompleted other hother).1, hextends.settled (hcompleted other hother).2⟩
            · rw [List.mem_singleton] at hother
              rw [hother]
              exact ⟨hknown, by simp [LeaseWorld.callFence]⟩
  | synchronize left armed after =>
      cases left with
      | nil =>
          obtain ⟨hholds, hextends⟩ := Holds.retire armed h fun id hid =>
            ⟨(hop id hid).1, (hop id hid).2.resolve_left (List.not_mem_nil)⟩
          refine ⟨hholds, hextends, fun op hop => ?_⟩
          have heq : op = .abortEach after := by simpa [LeaseWorld.effect] using hop
          rw [heq]
          trivial
      | cons id rest =>
          unfold LeaseWorld.effect
          dsimp only
          split
          · obtain ⟨hholds, hextends⟩ := h.callFence id .done
            refine ⟨hholds, hextends, fun op hop' => ?_⟩
            rw [List.mem_singleton] at hop'
            rw [hop']
            intro other hother
            obtain ⟨hknown, hleft | hsettled⟩ := hop other hother
            · obtain rfl | hleft := List.mem_cons.mp hleft
              · exact ⟨hextends.known _ hknown, Or.inr (by simp [LeaseWorld.callFence])⟩
              · exact ⟨hextends.known _ hknown, Or.inl hleft⟩
            · exact ⟨hextends.known _ hknown, Or.inr (hextends.settled hsettled)⟩
          · obtain ⟨hholds, hextends⟩ := h.callFence id .raised
            exact ⟨hholds, hextends, by simp⟩

end LeaseWorld

/-! ## Runs -/

open Threads LeaseWorld

/-- A call of the registry by a thread. -/
def LeaseOp.Public : LeaseOp → Prop
  | .query .. | .ready .. | .abortEach .. | .synchronize .. => False
  | _ => True

abbrev LeaseCall := { op : LeaseOp // op.Public }

variable {ι : Type*} {c : LeaseCapacity}

/-- The threads before the first step, each with its calls. -/
def registryThreads (calls : ι → List LeaseCall) : Config ι LeaseOp LeaseWorld :=
  ⟨.initial, fun i => (calls i).map Subtype.val⟩

/-- The registry after steps of the threads, in some order. -/
def leasesAfter [DecidableEq ι] (c : LeaseCapacity) (fence : ℕ → ℕ → FenceAnswer) (calls : ι → List LeaseCall)
    (schedule : List ι) : Config ι LeaseOp LeaseWorld :=
  Run.exec (Config.exec fun op w => some (w.effect c fence op)) (registryThreads calls) schedule

structure Steady (c : LeaseCapacity) (config : Config ι LeaseOp LeaseWorld) : Prop where
  holds : config.shared.Holds c
  justified : ∀ op, config.Pending op → config.shared.Justified op

theorem initial_holds (c : LeaseCapacity) : LeaseWorld.initial.Holds c := by
  refine ⟨BlockLeaseRegistry.new_sound c, rfl, ?_, ?_, ?_, ?_, ?_, ?_, ?_⟩
  all_goals simp [LeaseWorld.initial, BlockLeaseRegistry.new]

theorem Steady.initial (c : LeaseCapacity) (calls : ι → List LeaseCall) : Steady c (registryThreads calls) := by
  refine ⟨initial_holds c, ?_⟩
  rintro op ⟨i, hop⟩
  obtain ⟨⟨call, hpublic⟩, -, rfl⟩ := List.mem_map.mp hop
  cases call with
  | query => exact hpublic.elim
  | synchronize => exact hpublic.elim
  | _ => trivial

theorem Steady.step [DecidableEq ι] {fence : ℕ → ℕ → FenceAnswer} {config : Config ι LeaseOp LeaseWorld}
    (h : Steady c config) (i : ι) : Steady c (config.exec (fun op w => some (w.effect c fence op)) i) := by
  refine Config.exec_induction h fun op rest shared more hleft heffect => ?_
  have hop := h.justified op ⟨i, by rw [hleft]; exact List.mem_cons_self⟩
  obtain ⟨hholds, hextends, hmore⟩ := h.holds.effect fence hop
  rw [Option.some.injEq] at heffect
  rw [heffect] at hholds hextends hmore
  refine ⟨hholds, fun other hpending => ?_⟩
  obtain hnew | hothers := Config.pending_advance.mp hpending
  · exact hmore other hnew
  · exact (h.justified other hothers.pending).mono hextends

theorem Steady.run [DecidableEq ι] (c : LeaseCapacity) (fence : ℕ → ℕ → FenceAnswer) (calls : ι → List LeaseCall)
    (schedule : List ι) : Steady c (leasesAfter c fence calls schedule) :=
  Run.invariant (fun _ i h => h.step i) (Steady.initial c calls) schedule

/-- Whatever the threads call and the fences answer, in every order of the lock sections: the blocks of
the live leases are owned, each by one of them, within the bounds; a lease is gone only when it was not
submitted or its fence was done, and never when its submission is unknown; no release fails; and a
request that is reported has no lease left: what it has later has an id that was not given out then. -/
theorem block_leases_sound [DecidableEq ι] (c : LeaseCapacity) (fence : ℕ → ℕ → FenceAnswer)
    (calls : ι → List LeaseCall) (schedule : List ι) :
    let w := (leasesAfter c fence calls schedule).shared
    (∀ block id, w.registry.blockOwner.lookup block = some id ↔
        ∃ lease, w.registry.leases.lookup id = some lease ∧ block ∈ lease.blockIds) ∧
      (∀ block id id' lease lease', w.registry.leases.lookup id = some lease →
        w.registry.leases.lookup id' = some lease' → block ∈ lease.blockIds → block ∈ lease'.blockIds → id = id') ∧
      w.registry.leases.size ≤ c.maxActiveLeases ∧ w.registry.blockOwner.size ≤ c.maxLeasedBlocks ∧
      (∀ id, id < w.registry.nextId → w.registry.leases.lookup id = none → id ∈ w.submitted → id ∈ w.settled) ∧
      (∀ id ∈ w.unknown, w.registry.leases.lookup id ≠ none) ∧
      w.corrupted = false ∧
      (∀ id lease, w.registry.leases.lookup id = some lease → id < w.registry.nextId) ∧
      ∀ requestId n, (requestId, n) ∈ w.reported → n ≤ w.registry.nextId ∧
        ∀ id lease, w.registry.leases.lookup id = some lease → lease.requestId = requestId → n ≤ id := by
  have h := (Steady.run c fence calls schedule).holds
  refine ⟨h.sound.owners, ?_, h.sound.leaseBound, h.sound.blockBound, h.gone, fun id hid => (h.kept id hid).2, h.intact,
    fun id lease hlease => (h.sound.ids id lease hlease).2.1,
    fun requestId n hmem => ⟨h.counted requestId n hmem, h.reported requestId n hmem⟩⟩
  intro block id id' lease lease' hlease hlease' hmem hmem'
  have howner := (h.sound.owners block id).mpr ⟨lease, hlease, hmem⟩
  rw [(h.sound.owners block id').mpr ⟨lease', hlease', hmem'⟩, Option.some.injEq] at howner
  exact howner.symm

/-- A request is reported once its gather is done. -/
example : (leasesAfter ⟨1, 1, by decide⟩ (fun _ _ => .done) (fun _ : Unit =>
    [⟨.tryReserve "a" [5], trivial⟩, ⟨.submit 1 .fence, trivial⟩, ⟨.takeFinished ["a"], trivial⟩])
    (List.replicate 6 ())).shared.reported = [("a", 2)] := by decide

end SparkCache.Streaming
