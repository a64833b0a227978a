import SparkCache.Lib.Dictionary
import SparkCache.Lib.Run
import SparkCache.Streaming.PageSelection

/-!
# Read leases of capture jobs

The scheduler pins the source blocks of every capture that it dispatches, until each worker has said
that its read is done. Leases are taken while the metadata of a step is built.
-/
namespace SparkCache.Streaming

/-- A job identifier: the epoch of the scheduler and a sequence number. -/
structure CaptureJob where
  epoch : String
  sequence : ℕ
  deriving DecidableEq

/-- `_ReadLease` -/
structure ReadLease where
  blockIds : List ℕ
  completedRanks : Finset ℕ
  quarantined : Bool

/-- What a lease asks of a pool: how many blocks there are, and which are neither null nor unhashed. -/
structure BlockPool where
  size : ℕ
  immutable : ℕ → Bool

/-- `CaptureReadLeases(...)` -/
structure ReadLeaseConfig where
  epoch : String
  ranks : ℕ
  maxJobs : ℕ
  positive : 0 < ranks ∧ 0 < maxJobs

/-- The leases, and the references that they have on the blocks of the pool. -/
structure CaptureReadLeases where
  sequence : ℕ
  leases : Dictionary CaptureJob ReadLease
  disabled : Bool
  references : ℕ → ℤ

/-- `ValueError` -/
inductive LeaseError where
  | invalidBlock
  | mutableBlock
  | invalidRank
  deriving DecidableEq

/-- `tuple(dict.fromkeys(ids))` -/
def fromkeys : List ℕ → List ℕ
  | [] => []
  | x :: rest => x :: (fromkeys rest).filter (· ≠ x)

namespace CaptureReadLeases

def new : CaptureReadLeases := ⟨0, ∅, false, fun _ => 0⟩

/-- `pool.touch` -/
def touch (references : ℕ → ℤ) (blocks : List ℕ) : ℕ → ℤ := fun b => references b + blocks.count b

/-- `pool.free_blocks` -/
def freeBlocks (references : ℕ → ℤ) (blocks : List ℕ) : ℕ → ℤ := fun b => references b - blocks.count b

/-- The blocks of a request for a lease: in the pool, at least one, hash-proven. -/
def checkSources (pool : BlockPool) (blockIds : List ℤ) : Except LeaseError (List ℕ) :=
  if blockIds = [] ∨ ∃ b ∈ blockIds, ¬(0 < b ∧ b < pool.size) then .error .invalidBlock
  else if ∃ b ∈ fromkeys (blockIds.map Int.toNat), pool.immutable b = false then .error .mutableBlock
  else .ok (fromkeys (blockIds.map Int.toNat))

/-- `reserve` -/
def reserve (c : ReadLeaseConfig) (pool : BlockPool) (s : CaptureReadLeases) (blockIds : List ℤ) :
    Except LeaseError (Option CaptureJob × CaptureReadLeases) :=
  if s.disabled = true ∨ c.maxJobs ≤ s.leases.size then .ok (none, s)
  else do
    let ids ← checkSources pool blockIds
    let job : CaptureJob := ⟨c.epoch, s.sequence + 1⟩
    return (some job, { s with
      sequence := s.sequence + 1
      leases := s.leases.insert job ⟨ids, ∅, false⟩
      references := touch s.references ids })

/-- The ranks of a report. -/
def checkRanks (c : ReadLeaseConfig) (ranks : List ℤ) : Except LeaseError (Finset ℕ) :=
  if ∀ rank ∈ ranks, 0 ≤ rank ∧ rank < c.ranks then .ok (ranks.map Int.toNat).toFinset
  else .error .invalidRank

/-- `complete` -/
def complete (c : ReadLeaseConfig) (s : CaptureReadLeases) (job : CaptureJob) (ranks : List ℤ) :
    Except LeaseError (Bool × CaptureReadLeases) :=
  match s.leases.lookup job with
  | none => .ok (false, s)
  | some lease => do
      let received ← checkRanks c ranks
      let completed := lease.completedRanks ∪ received
      if completed.card ≠ c.ranks then
        return (false, { s with leases := s.leases.insert job { lease with completedRanks := completed } })
      else
        return (true, { s with
          leases := s.leases.erase job
          references := freeBlocks s.references lease.blockIds })

/-- `quarantine` -/
def quarantine (c : ReadLeaseConfig) (s : CaptureReadLeases) (job : CaptureJob) (ranks : List ℤ) :
    Except LeaseError CaptureReadLeases :=
  match s.leases.lookup job with
  | none => .ok s
  | some lease => do
      let _ ← checkRanks c ranks
      return { s with
        leases := s.leases.insert job { lease with quarantined := true }
        disabled := true }

end CaptureReadLeases

/-! ## Metadata -/

/-- `_ReqPlan`, as far as reservations read it. -/
structure CapturePlan where
  requestId : String
  isStore : Bool
  spanTokens : ℕ
  groupBlockIds : List (List ℤ)
  recurrentBoundaryBlocks : List (Option (ℤ × ℤ))

/-- A plan of the metadata, with its `capture_job_id`. -/
abbrev DispatchedPlan := CapturePlan × Option CaptureJob

/-- The span ends within a page of a group that is not recurrent. -/
def CapturePlan.endsInPage (topology : List GroupTopology) (plan : CapturePlan) : Bool :=
  topology.any fun t => t.reusePolicy ≠ .recurrentAlign ∧ plan.spanTokens % t.logicalTokensPerBlock ≠ 0

/-- `_select_group_blocks_for_span` of a plan. -/
def CapturePlan.sources (topology : List GroupTopology) (plan : CapturePlan) :
    Except Pages.CodecError (List (List ℤ)) :=
  selectGroupBlocksForSpan topology plan.groupBlockIds plan.spanTokens plan.recurrentBoundaryBlocks

/-- One turn of `_reserve_async_page_capture_plans`: the plan if it is accepted, and the leases after it. -/
def reservePlan (c : ReadLeaseConfig) (topology : List GroupTopology) (pool : BlockPool) (s : CaptureReadLeases)
    (plan : CapturePlan) : Except Pages.CodecError (List DispatchedPlan × CaptureReadLeases) :=
  if plan.isStore = false then .ok ([(plan, none)], s)
  else if plan.endsInPage topology = true then .ok ([], s)
  else
    match plan.sources topology with
    | .error e => .error e
    | .ok selected =>
        match s.reserve c pool selected.flatten with
        | .error _ => .ok ([], s)
        | .ok (none, s) => .ok ([], s)
        | .ok (some job, s) => .ok ([(plan, some job)], s)

/-- `_reserve_async_page_capture_plans`: the accepted plans, or the error that stopped the loop, and the
leases as the loop leaves them. -/
def reservePlans (c : ReadLeaseConfig) (topology : List GroupTopology) (pool : BlockPool) :
    CaptureReadLeases → List CapturePlan → Except Pages.CodecError (List DispatchedPlan) × CaptureReadLeases
  | s, [] => (.ok [], s)
  | s, plan :: rest =>
      match reservePlan c topology pool s plan with
      | .error e => (.error e, s)
      | .ok (accepted, s) =>
          let (more, s) := reservePlans c topology pool s rest
          (more.map (accepted ++ ·), s)

/-- The end of `build_connector_meta`; a step without a forward pass stores nothing. -/
def buildPlans (c : ReadLeaseConfig) (topology : List GroupTopology) (pool : BlockPool) (s : CaptureReadLeases)
    (noForward : Bool) (plans : List CapturePlan) : Except Pages.CodecError (List DispatchedPlan) × CaptureReadLeases :=
  reservePlans c topology pool s (if noForward then plans.filter fun plan => plan.isStore = false else plans)

/-! ## Runs -/

/-- What the workers report of a job: its read is done, or may not be. -/
inductive ReadReport where
  | uncertain (job : CaptureJob) (ranks : List ℤ)
  | completed (job : CaptureJob) (ranks : List ℤ)

/-- The report names a rank that there is not. -/
def ReadReport.Invalid (c : ReadLeaseConfig) : ReadReport → Prop
  | .uncertain _ ranks | .completed _ ranks => ∃ rank ∈ ranks, ¬(0 ≤ rank ∧ rank < c.ranks)

/-- A step of the scheduler: metadata of plans, or the reports of an output in their order. -/
inductive SchedulerEvent where
  | build (pool : BlockPool) (noForward : Bool) (plans : List CapturePlan)
  | output (reports : List ReadReport)

/-- The leases, the jobs of all metadata returned, the ranks that have acknowledged each job, and the
jobs that were freed. -/
structure CaptureScheduling where
  leases : CaptureReadLeases
  dispatched : List CaptureJob
  acknowledged : Finset (CaptureJob × ℕ)
  freed : List CaptureJob

namespace CaptureScheduling

def initial : CaptureScheduling := ⟨.new, [], ∅, []⟩

/-- One report; a report that raises changes nothing. -/
def report (c : ReadLeaseConfig) (s : CaptureScheduling) : ReadReport → Except LeaseError CaptureScheduling
  | .uncertain job ranks => do
      let leases ← s.leases.quarantine c job ranks
      return { s with leases := leases }
  | .completed job ranks => do
      let (freed, leases) ← s.leases.complete c job ranks
      let received := if s.leases.leases.lookup job = none then [] else ranks
      return { s with
        leases := leases
        acknowledged := s.acknowledged ∪ (received.map fun rank => (job, rank.toNat)).toFinset
        freed := if freed then s.freed ++ [job] else s.freed }

/-- The reports of an output, up to one that raises. -/
def reports (c : ReadLeaseConfig) : CaptureScheduling → List ReadReport → CaptureScheduling
  | s, [] => s
  | s, r :: rest =>
      match s.report c r with
      | .error _ => s
      | .ok s => reports c s rest

def step (c : ReadLeaseConfig) (topology : List GroupTopology) (s : CaptureScheduling) :
    SchedulerEvent → CaptureScheduling
  | .build pool noForward plans =>
      match buildPlans c topology pool s.leases noForward plans with
      | (.error _, leases) => { s with leases := leases }
      | (.ok accepted, leases) =>
          { s with leases := leases, dispatched := s.dispatched ++ accepted.filterMap Prod.snd }
  | .output rs => s.reports c rs

end CaptureScheduling

/-! ## The leases of a run -/

theorem fromkeys_nodup (xs : List ℕ) : (fromkeys xs).Nodup := by
  induction xs with
  | nil => exact List.nodup_nil
  | cons x rest ih =>
      rw [fromkeys, List.nodup_cons]
      refine ⟨?_, ih.filter _⟩
      simp [List.mem_filter]

namespace CaptureReadLeases

/-- The number of live leases that name a block. -/
def naming (s : CaptureReadLeases) (b : ℕ) : ℕ := s.leases.total fun lease => if b ∈ lease.blockIds then 1 else 0

theorem checkSources_nodup {pool : BlockPool} {blockIds : List ℤ} {ids : List ℕ}
    (h : checkSources pool blockIds = .ok ids) : ids.Nodup := by
  unfold checkSources at h
  split_ifs at h
  cases h
  exact fromkeys_nodup _

/-- A reservation takes the next job, or leaves everything as it is. -/
theorem reserve_spec {c : ReadLeaseConfig} {pool : BlockPool} {s s' : CaptureReadLeases} {blockIds : List ℤ}
    {job : Option CaptureJob} (h : s.reserve c pool blockIds = .ok (job, s')) :
    (job = none ∧ s' = s ∧ (s.disabled = true ∨ c.maxJobs ≤ s.leases.size)) ∨
      ∃ ids, checkSources pool blockIds = .ok ids ∧ s.disabled = false ∧ s.leases.size < c.maxJobs ∧
        job = some ⟨c.epoch, s.sequence + 1⟩ ∧
        s' = { s with
          sequence := s.sequence + 1
          leases := s.leases.insert ⟨c.epoch, s.sequence + 1⟩ ⟨ids, ∅, false⟩
          references := touch s.references ids } := by
  unfold reserve at h
  by_cases hfull : s.disabled = true ∨ c.maxJobs ≤ s.leases.size
  · rw [if_pos hfull] at h
    cases h
    exact Or.inl ⟨rfl, rfl, hfull⟩
  · rw [if_neg hfull] at h
    simp only [Pages.bind_eq_ok] at h
    obtain ⟨ids, hids, h⟩ := h
    cases h
    rw [not_or, Bool.not_eq_true, Nat.not_le] at hfull
    exact Or.inr ⟨ids, hids, hfull.1, hfull.2, rfl, rfl⟩

end CaptureReadLeases

namespace CaptureScheduling
open CaptureReadLeases

structure Holds (c : ReadLeaseConfig) (s : CaptureScheduling) : Prop where
  references : ∀ b, s.leases.references b = s.leases.naming b
  count : s.leases.leases.size ≤ c.maxJobs
  distinct : ∀ job lease, s.leases.leases.lookup job = some lease → lease.blockIds.Nodup
  numbered : ∀ job lease, s.leases.leases.lookup job = some lease →
    job.epoch = c.epoch ∧ 0 < job.sequence ∧ job.sequence ≤ s.leases.sequence
  ranks : ∀ job lease, s.leases.leases.lookup job = some lease →
    lease.completedRanks.card < c.ranks ∧ ∀ rank ∈ lease.completedRanks, rank < c.ranks ∧ (job, rank) ∈ s.acknowledged
  freed : ∀ job ∈ s.freed, s.leases.leases.lookup job = none ∧ job.sequence ≤ s.leases.sequence ∧
    ∀ rank < c.ranks, (job, rank) ∈ s.acknowledged
  once : s.freed.Nodup
  kept : ∀ n, 0 < n → n ≤ s.leases.sequence →
    s.leases.leases.lookup ⟨c.epoch, n⟩ ≠ none ∨ (⟨c.epoch, n⟩ : CaptureJob) ∈ s.freed

theorem initial_holds (c : ReadLeaseConfig) : initial.Holds c := by
  refine ⟨fun _ => rfl, Nat.zero_le _, ?_, ?_, ?_, ?_, List.nodup_nil, ?_⟩
  · intro job lease h
    cases h
  · intro job lease h
    cases h
  · intro job lease h
    cases h
  · intro job h
    cases h
  · intro n hpos hle
    exact absurd hpos (Nat.not_lt.mpr hle)

variable {c : ReadLeaseConfig} {s : CaptureScheduling}

theorem Holds.fresh (h : s.Holds c) : s.leases.leases.lookup ⟨c.epoch, s.leases.sequence + 1⟩ = none := by
  rw [Option.eq_none_iff_forall_ne_some]
  intro lease hlease
  have := (h.numbered _ lease hlease).2.2
  dsimp only at this
  omega

/-- A new lease on distinct blocks. -/
theorem Holds.reserve (h : s.Holds c) {pool : BlockPool} {blockIds : List ℤ} {job : Option CaptureJob}
    {leases : CaptureReadLeases} (hreserve : s.leases.reserve c pool blockIds = .ok (job, leases)) :
    Holds c { s with leases := leases } := by
  obtain ⟨-, rfl, -⟩ | ⟨ids, hids, -, hroom, -, rfl⟩ := reserve_spec hreserve
  · exact h
  have hfresh := h.fresh
  have hnodup := checkSources_nodup hids
  have hcases : ∀ {job lease}, (s.leases.leases.insert ⟨c.epoch, s.leases.sequence + 1⟩ ⟨ids, ∅, false⟩).lookup job =
      some lease → (job = ⟨c.epoch, s.leases.sequence + 1⟩ ∧ lease = ⟨ids, ∅, false⟩) ∨
        s.leases.leases.lookup job = some lease := by
    intro job lease hlookup
    exact (AList.lookup_insert_some hlookup).imp_right And.right
  constructor
  · intro b
    show touch s.leases.references ids b = ((s.leases.leases.insert _ _).total _ : ℕ)
    rw [AList.total_insert_of_none _ hfresh, touch, h.references, Nat.cast_add, naming]
    by_cases hmem : b ∈ ids
    · rw [if_pos hmem, List.count_eq_one_of_mem hnodup hmem]
    · rw [if_neg hmem, List.count_eq_zero_of_not_mem hmem]
  · show (s.leases.leases.insert _ _).size ≤ c.maxJobs
    rw [AList.size_insert_of_none hfresh]
    omega
  · intro job lease hlookup
    obtain ⟨-, rfl⟩ | hlookup := hcases hlookup
    · exact hnodup
    · exact h.distinct job lease hlookup
  · intro job lease hlookup
    obtain ⟨rfl, -⟩ | hlookup := hcases hlookup
    · exact ⟨rfl, Nat.succ_pos _, Nat.le_refl _⟩
    · obtain ⟨hepoch, hpos, hle⟩ := h.numbered job lease hlookup
      exact ⟨hepoch, hpos, Nat.le_succ_of_le hle⟩
  · intro job lease hlookup
    obtain ⟨-, rfl⟩ | hlookup := hcases hlookup
    · refine ⟨c.positive.1, ?_⟩
      simp
    · exact h.ranks job lease hlookup
  · intro job hjob
    obtain ⟨hgone, hle, hranks⟩ := h.freed job hjob
    have hne : job ≠ ⟨c.epoch, s.leases.sequence + 1⟩ := by
      rintro rfl
      dsimp only at hle
      omega
    refine ⟨?_, Nat.le_succ_of_le hle, hranks⟩
    show (s.leases.leases.insert _ _).lookup job = none
    rw [AList.lookup_insert_ne hne]
    exact hgone
  · exact h.once
  · intro n hpos hle
    dsimp only at hle ⊢
    by_cases hlast : n = s.leases.sequence + 1
    · left
      rw [hlast, AList.lookup_insert]
      simp
    · refine (h.kept n hpos (by omega)).imp_left fun hlive => ?_
      rw [AList.lookup_insert_ne (by simp [hlast])]
      exact hlive

/-- A lease that is replaced by one on the same blocks. -/
theorem Holds.replace (h : s.Holds c) {job : CaptureJob} {lease lease' : ReadLease}
    (hlookup : s.leases.leases.lookup job = some lease) (hblocks : lease'.blockIds = lease.blockIds)
    {disabled : Bool} {acknowledged : Finset (CaptureJob × ℕ)} (hgrows : s.acknowledged ⊆ acknowledged)
    (hranks : lease'.completedRanks.card < c.ranks ∧
      ∀ rank ∈ lease'.completedRanks, rank < c.ranks ∧ (job, rank) ∈ acknowledged) :
    Holds c { s with
      leases := { s.leases with leases := s.leases.leases.insert job lease', disabled := disabled }
      acknowledged := acknowledged } := by
  have hcases : ∀ {other known}, (s.leases.leases.insert job lease').lookup other = some known →
      (other = job ∧ known = lease') ∨ s.leases.leases.lookup other = some known := by
    intro other known hknown
    exact (AList.lookup_insert_some hknown).imp_right And.right
  constructor
  · intro b
    have htotal := AList.total_insert_of_lookup (fun l : ReadLease => if b ∈ l.blockIds then 1 else 0) hlookup lease'
    rw [hblocks] at htotal
    have hsame : (s.leases.leases.insert job lease').total (fun l => if b ∈ l.blockIds then 1 else 0) =
        s.leases.naming b := Nat.add_right_cancel htotal
    show s.leases.references b = ((s.leases.leases.insert job lease').total _ : ℕ)
    rw [hsame]
    exact h.references b
  · show (s.leases.leases.insert job lease').size ≤ c.maxJobs
    rw [AList.size_insert_of_lookup hlookup]
    exact h.count
  · intro other known hknown
    obtain ⟨rfl, rfl⟩ | hknown := hcases hknown
    · rw [hblocks]
      exact h.distinct other lease hlookup
    · exact h.distinct other known hknown
  · intro other known hknown
    obtain ⟨rfl, rfl⟩ | hknown := hcases hknown
    · exact h.numbered other lease hlookup
    · exact h.numbered other known hknown
  · intro other known hknown
    obtain ⟨rfl, rfl⟩ | hknown := hcases hknown
    · exact hranks
    · obtain ⟨hcard, hall⟩ := h.ranks other known hknown
      exact ⟨hcard, fun rank hrank => ⟨(hall rank hrank).1, hgrows (hall rank hrank).2⟩⟩
  · intro other hother
    obtain ⟨hgone, hle, hall⟩ := h.freed other hother
    have hne : other ≠ job := by
      rintro rfl
      rw [hlookup] at hgone
      cases hgone
    refine ⟨?_, hle, fun rank hrank => hgrows (hall rank hrank)⟩
    show (s.leases.leases.insert job lease').lookup other = none
    rw [AList.lookup_insert_ne hne]
    exact hgone
  · exact h.once
  · intro n hpos hle
    refine (h.kept n hpos hle).imp_left fun hlive => ?_
    show (s.leases.leases.insert job lease').lookup _ ≠ none
    by_cases heq : (⟨c.epoch, n⟩ : CaptureJob) = job
    · rw [heq, AList.lookup_insert]
      simp
    · rw [AList.lookup_insert_ne heq]
      exact hlive

/-- A lease that every rank has acknowledged is freed. -/
theorem Holds.free (h : s.Holds c) {job : CaptureJob} {lease : ReadLease}
    (hlookup : s.leases.leases.lookup job = some lease) {acknowledged : Finset (CaptureJob × ℕ)}
    (hgrows : s.acknowledged ⊆ acknowledged) (hall : ∀ rank < c.ranks, (job, rank) ∈ acknowledged) :
    Holds c { s with
      leases := { s.leases with
        leases := s.leases.leases.erase job
        references := freeBlocks s.leases.references lease.blockIds }
      acknowledged := acknowledged
      freed := s.freed ++ [job] } := by
  have hgone : job ∉ s.freed := by
    intro hmem
    rw [(h.freed job hmem).1] at hlookup
    cases hlookup
  constructor
  · intro b
    show freeBlocks s.leases.references lease.blockIds b = ((s.leases.leases.erase job).total _ : ℕ)
    rw [freeBlocks, h.references, naming, AList.total_of_lookup _ hlookup]
    by_cases hmem : b ∈ lease.blockIds
    · rw [if_pos hmem, List.count_eq_one_of_mem (h.distinct job lease hlookup) hmem]
      push_cast
      ring
    · rw [if_neg hmem, List.count_eq_zero_of_not_mem hmem]
      push_cast
      ring
  · exact (AList.size_erase_le _ _).trans h.count
  · intro other known hknown
    exact h.distinct other known (AList.lookup_erase_some hknown).2
  · intro other known hknown
    exact h.numbered other known (AList.lookup_erase_some hknown).2
  · intro other known hknown
    obtain ⟨hcard, hacknowledged⟩ := h.ranks other known (AList.lookup_erase_some hknown).2
    exact ⟨hcard, fun rank hrank => ⟨(hacknowledged rank hrank).1, hgrows (hacknowledged rank hrank).2⟩⟩
  · intro other hother
    rw [List.mem_append, List.mem_singleton] at hother
    obtain hother | rfl := hother
    · obtain ⟨hnone, hle, hacknowledged⟩ := h.freed other hother
      refine ⟨?_, hle, fun rank hrank => hgrows (hacknowledged rank hrank)⟩
      rw [Option.eq_none_iff_forall_ne_some]
      intro known hknown
      rw [(AList.lookup_erase_some hknown).2] at hnone
      cases hnone
    · exact ⟨AList.lookup_erase _ _, (h.numbered other lease hlookup).2.2, hall⟩
  · exact h.once.append (List.nodup_singleton job) (List.disjoint_singleton.mpr hgone)
  · intro n hpos hle
    by_cases heq : (⟨c.epoch, n⟩ : CaptureJob) = job
    · right
      rw [heq]
      exact List.mem_append_right _ (List.mem_singleton_self job)
    · refine (h.kept n hpos hle).imp (fun hlive => ?_) fun hfreed => List.mem_append_left _ hfreed
      show (s.leases.leases.erase job).lookup _ ≠ none
      rw [AList.lookup_erase_ne heq]
      exact hlive

theorem checkRanks_eq_ok {ranks : List ℤ} {received : Finset ℕ} (h : checkRanks c ranks = .ok received) :
    received = (ranks.map Int.toNat).toFinset ∧ ∀ rank ∈ received, rank < c.ranks := by
  unfold checkRanks at h
  split at h
  · rename_i hall
    cases h
    refine ⟨rfl, fun rank hrank => ?_⟩
    rw [List.mem_toFinset, List.mem_map] at hrank
    obtain ⟨value, hvalue, rfl⟩ := hrank
    have := hall value hvalue
    omega
  · cases h

theorem Holds.report (h : s.Holds c) {r : ReadReport} {s' : CaptureScheduling} (hreport : s.report c r = .ok s') :
    s'.Holds c := by
  cases r with
  | uncertain job ranks =>
      simp only [CaptureScheduling.report, Pages.bind_eq_ok] at hreport
      obtain ⟨leases, hquarantine, hreport⟩ := hreport
      cases hreport
      unfold quarantine at hquarantine
      split at hquarantine
      · cases hquarantine
        exact h
      · rename_i lease hlookup
        simp only [Pages.bind_eq_ok] at hquarantine
        obtain ⟨_, -, hquarantine⟩ := hquarantine
        cases hquarantine
        exact @Holds.replace c s h job lease { lease with quarantined := true } hlookup rfl true s.acknowledged
          (Finset.Subset.refl _) (h.ranks job lease hlookup)
  | completed job ranks =>
      simp only [CaptureScheduling.report, Pages.bind_eq_ok] at hreport
      obtain ⟨⟨freed, leases⟩, hcomplete, hreport⟩ := hreport
      cases hreport
      unfold complete at hcomplete
      split at hcomplete
      · rename_i hnone
        cases hcomplete
        simpa [hnone] using h
      · rename_i lease hlookup
        simp only [Pages.bind_eq_ok] at hcomplete
        obtain ⟨received, hreceived, hcomplete⟩ := hcomplete
        obtain ⟨hvalue, hbound⟩ := checkRanks_eq_ok hreceived
        obtain ⟨hcard, hall⟩ := h.ranks job lease hlookup
        have hnew : ∀ rank ∈ lease.completedRanks ∪ received, rank < c.ranks ∧
            (job, rank) ∈ s.acknowledged ∪ (ranks.map fun rank => (job, rank.toNat)).toFinset := by
          intro rank hrank
          rw [Finset.mem_union] at hrank ⊢
          obtain hrank | hrank := hrank
          · exact ⟨(hall rank hrank).1, Or.inl (hall rank hrank).2⟩
          · refine ⟨hbound rank hrank, Or.inr ?_⟩
            rw [hvalue, List.mem_toFinset, List.mem_map] at hrank
            obtain ⟨value, hmem, rfl⟩ := hrank
            exact List.mem_toFinset.mpr (List.mem_map.mpr ⟨value, hmem, rfl⟩)
        have hwithin : lease.completedRanks ∪ received ⊆ Finset.range c.ranks := fun rank hrank =>
          Finset.mem_range.mpr (hnew rank hrank).1
        split at hcomplete
        · rename_i hmore
          cases hcomplete
          have hle := Finset.card_le_card hwithin
          rw [Finset.card_range] at hle
          simp only [hlookup, reduceCtorEq, if_false, Bool.false_eq_true]
          exact @Holds.replace c s h job lease { lease with completedRanks := lease.completedRanks ∪ received } hlookup
            rfl s.leases.disabled _ Finset.subset_union_left ⟨lt_of_le_of_ne hle hmore, hnew⟩
        · rename_i hdone
          cases hcomplete
          simp only [hlookup, reduceCtorEq, if_false, if_true]
          refine h.free hlookup Finset.subset_union_left fun rank hrank => (hnew rank ?_).2
          have hfull : lease.completedRanks ∪ received = Finset.range c.ranks :=
            Finset.eq_of_subset_of_card_le hwithin (by rw [Finset.card_range]; omega)
          rw [hfull]
          exact Finset.mem_range.mpr hrank

theorem Holds.reports (rs : List ReadReport) : ∀ {s : CaptureScheduling}, s.Holds c → (s.reports c rs).Holds c := by
  induction rs with
  | nil => exact fun h => h
  | cons r rest ih =>
      intro s h
      rw [CaptureScheduling.reports]
      cases hreport : s.report c r with
      | error e => exact h
      | ok s' => exact ih (h.report hreport)

theorem Holds.reservePlans {topology : List GroupTopology} {pool : BlockPool} (plans : List CapturePlan) :
    ∀ {leases : CaptureReadLeases}, Holds c { s with leases := leases } →
      Holds c { s with leases := (reservePlans c topology pool leases plans).2 } := by
  induction plans with
  | nil => exact fun h => h
  | cons plan rest ih =>
      intro leases h
      rw [Streaming.reservePlans]
      split
      · exact h
      · rename_i accepted leases' hplan
        refine ih ?_
        unfold reservePlan at hplan
        split_ifs at hplan
        · cases hplan
          exact h
        · cases hplan
          exact h
        split at hplan
        · cases hplan
        split at hplan
        · cases hplan
          exact h
        · rename_i hreserve
          cases hplan
          exact h.reserve hreserve
        · rename_i hreserve
          cases hplan
          exact h.reserve hreserve

theorem Holds.step (h : s.Holds c) (topology : List GroupTopology) (event : SchedulerEvent) :
    (s.step c topology event).Holds c := by
  cases event with
  | output rs => exact h.reports rs
  | build pool noForward plans =>
      have hreserve := @Holds.reservePlans c s topology pool (if noForward then plans.filter fun plan =>
        plan.isStore = false else plans) s.leases h
      rw [CaptureScheduling.step, buildPlans]
      generalize Streaming.reservePlans c topology pool s.leases _ = built at hreserve
      obtain ⟨accepted, leases⟩ := built
      cases accepted with
      | error e => exact hreserve
      | ok accepted =>
          exact ⟨hreserve.references, hreserve.count, hreserve.distinct, hreserve.numbered, hreserve.ranks,
            hreserve.freed, hreserve.once, hreserve.kept⟩

end CaptureScheduling

/-! ## Jobs that are dispatched -/

/-- The blocks of the plan cannot be selected. -/
def CapturePlan.raises (topology : List GroupTopology) (plan : CapturePlan) : Bool :=
  plan.isStore && !plan.endsInPage topology &&
    match plan.sources topology with
    | .error _ => true
    | .ok _ => false

/-- The blocks of the plan can be leased. -/
def CapturePlan.reservable (topology : List GroupTopology) (pool : BlockPool) (plan : CapturePlan) : Bool :=
  plan.isStore && !plan.endsInPage topology &&
    match plan.sources topology with
    | .error _ => false
    | .ok selected =>
        match CaptureReadLeases.checkSources pool selected.flatten with
        | .error _ => false
        | .ok _ => true

/-- A plan raises, and an earlier one is reservable; `earlier` tells whether there was one before. -/
def raisesAfter (topology : List GroupTopology) (pool : BlockPool) : Bool → List CapturePlan → Bool
  | _, [] => false
  | earlier, plan :: rest =>
      if plan.raises topology then earlier
      else raisesAfter topology pool (earlier || plan.reservable topology pool) rest

section Plans
variable {c : ReadLeaseConfig} {topology : List GroupTopology} {pool : BlockPool} {s s' : CaptureReadLeases}

/-- The jobs of accepted plans. -/
def jobsOf (accepted : List DispatchedPlan) : List CaptureJob := accepted.filterMap Prod.snd

/-- Leases are declined. -/
def CaptureReadLeases.Declines (c : ReadLeaseConfig) (s : CaptureReadLeases) : Prop :=
  s.disabled = true ∨ c.maxJobs ≤ s.leases.size

instance (c : ReadLeaseConfig) (s : CaptureReadLeases) : Decidable (s.Declines c) :=
  inferInstanceAs (Decidable (s.disabled = true ∨ c.maxJobs ≤ s.leases.size))

/-- Leases are not declined, and the building of metadata raises behind a plan that gets one. -/
def Leaks (c : ReadLeaseConfig) (topology : List GroupTopology) (s : CaptureReadLeases) : SchedulerEvent → Prop
  | .output _ => False
  | .build pool noForward plans =>
      ¬s.Declines c ∧ noForward = false ∧ raisesAfter topology pool false plans = true

instance (c : ReadLeaseConfig) (topology : List GroupTopology) (s : CaptureReadLeases) (event : SchedulerEvent) :
    Decidable (Leaks c topology s event) := by
  cases event <;> unfold Leaks <;> infer_instance

/-- What a turn does if it does not raise: nothing, or it takes the next lease. -/
theorem reservePlan_spec {plan : CapturePlan} {accepted : List DispatchedPlan}
    (h : reservePlan c topology pool s plan = .ok (accepted, s')) :
    plan.raises topology = false ∧
      ((s' = s ∧ jobsOf accepted = [] ∧ (plan.reservable topology pool = true → s.Declines c)) ∨
        ¬s.Declines c ∧ plan.reservable topology pool = true ∧ jobsOf accepted = [⟨c.epoch, s.sequence + 1⟩] ∧
          ∃ lease, s'.leases = s.leases.insert ⟨c.epoch, s.sequence + 1⟩ lease) := by
  unfold reservePlan at h
  by_cases hstore : plan.isStore = false
  · rw [if_pos hstore] at h
    cases h
    simp [CapturePlan.raises, CapturePlan.reservable, jobsOf, hstore]
  rw [if_neg hstore] at h
  by_cases hends : plan.endsInPage topology = true
  · rw [if_pos hends] at h
    cases h
    simp [CapturePlan.raises, CapturePlan.reservable, jobsOf, hends]
  rw [if_neg hends] at h
  rw [Bool.not_eq_true] at hends
  rw [Bool.not_eq_false] at hstore
  cases hsources : plan.sources topology with
  | error e =>
      rw [hsources] at h
      cases h
  | ok selected =>
      simp only [hsources] at h
      simp only [CapturePlan.raises, CapturePlan.reservable, hstore, hends, hsources, Bool.not_false, Bool.and_self,
        Bool.true_and, true_and]
      cases hreserve : s.reserve c pool selected.flatten with
      | error e =>
          rw [hreserve] at h
          cases h
          left
          refine ⟨rfl, rfl, fun hvalid => ?_⟩
          by_contra hdeclines
          have hopen : ¬(s.disabled = true ∨ c.maxJobs ≤ s.leases.size) := hdeclines
          unfold CaptureReadLeases.reserve at hreserve
          rw [if_neg hopen] at hreserve
          cases hcheck : CaptureReadLeases.checkSources pool selected.flatten with
          | error e => simp [hcheck] at hvalid
          | ok ids =>
              rw [hcheck] at hreserve
              cases hreserve
      | ok result =>
          obtain ⟨job, leases⟩ := result
          rw [hreserve] at h
          obtain ⟨rfl, rfl, hdeclines⟩ | ⟨ids, hids, henabled, hroom, rfl, rfl⟩ :=
            CaptureReadLeases.reserve_spec hreserve
          · cases h
            exact Or.inl ⟨rfl, rfl, fun _ => hdeclines⟩
          · cases h
            right
            refine ⟨?_, by rw [hids], rfl, _, rfl⟩
            rintro (hdisabled | hfull)
            · rw [henabled] at hdisabled
              cases hdisabled
            · exact absurd hroom (Nat.not_lt.mpr hfull)

theorem reservePlan_raises {plan : CapturePlan} :
    (∃ e, reservePlan c topology pool s plan = .error e) ↔ plan.raises topology = true := by
  constructor
  · rintro ⟨e, h⟩
    unfold reservePlan at h
    split_ifs at h with hstore hends
    split at h
    · rename_i e' hsources
      rw [Bool.not_eq_true] at hends
      rw [Bool.not_eq_false] at hstore
      simp [CapturePlan.raises, hstore, hends, hsources]
    · split at h <;> cases h
  · intro hraises
    cases h : reservePlan c topology pool s plan with
    | error e => exact ⟨e, rfl⟩
    | ok result =>
        rw [(reservePlan_spec h).1] at hraises
        cases hraises

/-- The loop raises exactly when a plan does. -/
theorem reservePlans_raises (plans : List CapturePlan) : ∀ s : CaptureReadLeases,
    (∃ e, (reservePlans c topology pool s plans).1 = .error e) ↔ ∃ plan ∈ plans, plan.raises topology = true := by
  induction plans with
  | nil => simp [reservePlans]
  | cons plan rest ih =>
      intro s
      rw [List.exists_mem_cons_iff, ← @reservePlan_raises c topology pool s plan, reservePlans]
      cases hplan : reservePlan c topology pool s plan with
      | error e => simp
      | ok result =>
          obtain ⟨accepted, leases⟩ := result
          simp only [reduceCtorEq, exists_false, false_or, ← ih leases]
          cases (reservePlans c topology pool leases rest).1 <;> simp [Except.map]

/-- Live leases stay, and a new one is on a job that the loop has accepted, unless the loop raises. -/
theorem reservePlans_live (plans : List CapturePlan) : ∀ {s : CaptureReadLeases},
    (∀ job, s.leases.lookup job ≠ none → (reservePlans c topology pool s plans).2.leases.lookup job ≠ none) ∧
      ∀ accepted, (reservePlans c topology pool s plans).1 = .ok accepted →
        ∀ job, (reservePlans c topology pool s plans).2.leases.lookup job ≠ none ↔
          s.leases.lookup job ≠ none ∨ job ∈ jobsOf accepted := by
  induction plans with
  | nil =>
      intro s
      refine ⟨fun _ h => h, fun accepted haccepted job => ?_⟩
      cases haccepted
      simp [reservePlans, jobsOf]
  | cons plan rest ih =>
      intro s
      rw [reservePlans]
      cases hplan : reservePlan c topology pool s plan with
      | error e => exact ⟨fun _ h => h, fun _ h => (nomatch h)⟩
      | ok result =>
          obtain ⟨first, s'⟩ := result
          obtain ⟨hkept, hnew⟩ := @ih s'
          have hturn : ∀ job, s'.leases.lookup job ≠ none ↔ s.leases.lookup job ≠ none ∨ job ∈ jobsOf first := by
            obtain ⟨rfl, hjobs, -⟩ | ⟨-, -, hjobs, lease, hleases⟩ := (reservePlan_spec hplan).2
            · simp [hjobs]
            · intro job
              rw [hleases, hjobs, List.mem_singleton]
              by_cases heq : job = ⟨c.epoch, s.sequence + 1⟩
              · rw [heq, AList.lookup_insert]
                simp
              · rw [AList.lookup_insert_ne heq]
                simp [heq]
          refine ⟨fun job hlive => hkept job ((hturn job).mpr (Or.inl hlive)), ?_⟩
          intro accepted haccepted job
          dsimp only at haccepted ⊢
          cases hmore : (reservePlans c topology pool s' rest).1 with
          | error e =>
              rw [hmore] at haccepted
              cases haccepted
          | ok more =>
              rw [hmore] at haccepted
              cases haccepted
              have hsplit : jobsOf (first ++ more) = jobsOf first ++ jobsOf more := List.filterMap_append
              rw [hsplit, List.mem_append, hnew more hmore job, hturn job, or_assoc]

theorem raisesAfter_true (plans : List CapturePlan) :
    raisesAfter topology pool true plans = true ↔ ∃ plan ∈ plans, plan.raises topology = true := by
  induction plans with
  | nil => simp [raisesAfter]
  | cons plan rest ih =>
      rw [raisesAfter, List.exists_mem_cons_iff]
      by_cases hraises : plan.raises topology = true
      · simp [hraises]
      · rw [if_neg hraises, Bool.true_or, ih]
        simp [hraises]

theorem reservePlans_declined (plans : List CapturePlan) (hdeclines : s.Declines c) :
    (reservePlans c topology pool s plans).2 = s := by
  induction plans with
  | nil => rfl
  | cons plan rest ih =>
      rw [reservePlans]
      cases hplan : reservePlan c topology pool s plan with
      | error e => rfl
      | ok result =>
          obtain ⟨accepted, s'⟩ := result
          obtain ⟨rfl, -, -⟩ | ⟨hopen, -⟩ := (reservePlan_spec hplan).2
          · exact ih
          · exact absurd hdeclines hopen

/-- If leases can be had, a loop that raises leaves a new lease behind exactly when a plan raises behind
a reservable one. -/
theorem reservePlans_pins (plans : List CapturePlan) (hopen : ¬s.Declines c) :
    (raisesAfter topology pool false plans = true →
        (∃ e, (reservePlans c topology pool s plans).1 = .error e) ∧
          (reservePlans c topology pool s plans).2.leases.lookup ⟨c.epoch, s.sequence + 1⟩ ≠ none) ∧
      (raisesAfter topology pool false plans = false →
        (∃ e, (reservePlans c topology pool s plans).1 = .error e) → (reservePlans c topology pool s plans).2 = s) := by
  induction plans with
  | nil => simp [raisesAfter, reservePlans]
  | cons plan rest ih =>
      rw [raisesAfter, reservePlans]
      cases hplan : reservePlan c topology pool s plan with
      | error e =>
          rw [if_pos (reservePlan_raises.mp ⟨e, hplan⟩)]
          simp
      | ok result =>
          obtain ⟨accepted, s'⟩ := result
          obtain ⟨hraises, hturn⟩ := reservePlan_spec hplan
          rw [if_neg (by rw [hraises]; exact Bool.false_ne_true), Bool.false_or]
          have herror : (∃ e, (Except.map (accepted ++ ·) (reservePlans c topology pool s' rest).1) = .error e) ↔
              ∃ e, (reservePlans c topology pool s' rest).1 = .error e := by
            cases (reservePlans c topology pool s' rest).1 <;> simp [Except.map]
          simp only [herror]
          obtain ⟨rfl, -, hdeclines⟩ | ⟨-, hreservable, -, lease, hleases⟩ := hturn
          · have hnot : plan.reservable topology pool = false := by
              rw [← Bool.not_eq_true]
              exact fun hreservable => hopen (hdeclines hreservable)
            rw [hnot]
            exact ih
          · rw [hreservable]
            have hraise := (@raisesAfter_true topology pool rest).trans (@reservePlans_raises c topology pool rest s').symm
            refine ⟨fun h => ⟨hraise.mp h, (reservePlans_live rest).1 _ ?_⟩, fun h hnone => ?_⟩
            · rw [hleases, AList.lookup_insert]
              simp
            · rw [hraise.mpr hnone] at h
              cases h

end Plans

namespace CaptureScheduling
open CaptureReadLeases
variable {c : ReadLeaseConfig} {topology : List GroupTopology} {s : CaptureScheduling}

/-- Every live lease is for a plan of some metadata that was returned. -/
def AllDispatched (s : CaptureScheduling) : Prop :=
  ∀ job, s.leases.leases.lookup job ≠ none → job ∈ s.dispatched

/-- Jobs that were dispatched are live, or were freed. -/
def Tracked (s : CaptureScheduling) : Prop :=
  ∀ job ∈ s.dispatched, s.leases.leases.lookup job ≠ none ∨ job ∈ s.freed

theorem report_jobs {r : ReadReport} {s' : CaptureScheduling} (h : s.report c r = .ok s') :
    s'.dispatched = s.dispatched ∧ ∀ job,
      (s'.leases.leases.lookup job ≠ none → s.leases.leases.lookup job ≠ none) ∧
        (s.leases.leases.lookup job ≠ none ∨ job ∈ s.freed →
          s'.leases.leases.lookup job ≠ none ∨ job ∈ s'.freed) := by
  have hinsert : ∀ {job other : CaptureJob} {lease lease' : ReadLease}, s.leases.leases.lookup job = some lease →
      ((s.leases.leases.insert job lease').lookup other ≠ none ↔ s.leases.leases.lookup other ≠ none) := by
    intro job other lease lease' hlookup
    by_cases heq : other = job
    · rw [heq, AList.lookup_insert, hlookup]
      simp
    · rw [AList.lookup_insert_ne heq]
  cases r with
  | uncertain job ranks =>
      simp only [report, Pages.bind_eq_ok] at h
      obtain ⟨leases, hquarantine, h⟩ := h
      cases h
      unfold quarantine at hquarantine
      split at hquarantine
      · cases hquarantine
        exact ⟨rfl, fun job => ⟨id, id⟩⟩
      · rename_i lease hlookup
        simp only [Pages.bind_eq_ok] at hquarantine
        obtain ⟨_, -, hquarantine⟩ := hquarantine
        cases hquarantine
        exact ⟨rfl, fun other => ⟨(hinsert hlookup).mp, Or.imp_left (hinsert hlookup).mpr⟩⟩
  | completed job ranks =>
      simp only [report, Pages.bind_eq_ok] at h
      obtain ⟨⟨freed, leases⟩, hcomplete, h⟩ := h
      cases h
      unfold complete at hcomplete
      split at hcomplete
      · cases hcomplete
        exact ⟨rfl, fun job => ⟨id, id⟩⟩
      · rename_i lease hlookup
        simp only [Pages.bind_eq_ok] at hcomplete
        obtain ⟨received, -, hcomplete⟩ := hcomplete
        split at hcomplete
        · cases hcomplete
          exact ⟨rfl, fun other => ⟨(hinsert hlookup).mp, Or.imp_left (hinsert hlookup).mpr⟩⟩
        · cases hcomplete
          refine ⟨rfl, fun other => ⟨fun hlive => ?_, fun hbefore => ?_⟩⟩
          · intro hnone
            rw [Option.ne_none_iff_exists'] at hlive
            obtain ⟨known, hknown⟩ := hlive
            rw [(AList.lookup_erase_some hknown).2] at hnone
            cases hnone
          · dsimp only
            rw [if_pos rfl, List.mem_append, List.mem_singleton]
            by_cases heq : other = job
            · exact Or.inr (Or.inr heq)
            · rw [AList.lookup_erase_ne heq]
              exact hbefore.imp_right Or.inl

theorem reports_jobs (rs : List ReadReport) : ∀ {s : CaptureScheduling},
    (s.reports c rs).dispatched = s.dispatched ∧ ∀ job,
      ((s.reports c rs).leases.leases.lookup job ≠ none → s.leases.leases.lookup job ≠ none) ∧
        (s.leases.leases.lookup job ≠ none ∨ job ∈ s.freed →
          (s.reports c rs).leases.leases.lookup job ≠ none ∨ job ∈ (s.reports c rs).freed) := by
  induction rs with
  | nil => exact fun {s} => ⟨rfl, fun job => ⟨id, id⟩⟩
  | cons r rest ih =>
      intro s
      rw [reports]
      cases hreport : s.report c r with
      | error e => exact ⟨rfl, fun job => ⟨id, id⟩⟩
      | ok s' =>
          obtain ⟨hdispatched, hjobs⟩ := report_jobs hreport
          obtain ⟨hrest, hmore⟩ := @ih s'
          exact ⟨hrest.trans hdispatched, fun job => ⟨(hjobs job).1 ∘ (hmore job).1, (hmore job).2 ∘ (hjobs job).2⟩⟩

theorem Tracked.step (h : s.Tracked) (event : SchedulerEvent) : (s.step c topology event).Tracked := by
  cases event with
  | output rs =>
      obtain ⟨hdispatched, hjobs⟩ := @reports_jobs c rs s
      intro job hjob
      rw [CaptureScheduling.step, hdispatched] at hjob
      exact (hjobs job).2 (h job hjob)
  | build pool noForward plans =>
      have hlive := @reservePlans_live c topology pool (if noForward then plans.filter fun plan =>
        plan.isStore = false else plans) s.leases
      rw [CaptureScheduling.step, buildPlans]
      generalize reservePlans c topology pool s.leases _ = built at hlive
      obtain ⟨accepted, leases⟩ := built
      cases accepted with
      | error e => exact fun job hjob => (h job hjob).imp_left (hlive.1 job)
      | ok accepted =>
          intro job hjob
          obtain hjob | hjob := List.mem_append.mp hjob
          · exact (h job hjob).imp_left (hlive.1 job)
          · exact Or.inl ((hlive.2 accepted rfl job).mpr (Or.inr hjob))

/-- A step dispatches what it leases exactly when it does not leak. -/
theorem allDispatched_step (h : s.Holds c) (htracked : s.Tracked) (hall : s.AllDispatched) (event : SchedulerEvent) :
    (s.step c topology event).AllDispatched ↔ ¬Leaks c topology s.leases event := by
  cases event with
  | output rs =>
      refine ⟨fun _ => id, fun _ => ?_⟩
      obtain ⟨hdispatched, hjobs⟩ := @reports_jobs c rs s
      intro job hlive
      rw [CaptureScheduling.step, hdispatched]
      exact hall job ((hjobs job).1 hlive)
  | build pool noForward plans =>
      have hquiet : noForward = true → ¬∃ plan ∈ (if noForward then plans.filter fun plan =>
          plan.isStore = false else plans), plan.raises topology = true := by
        rintro rfl ⟨plan, hmem, hraises⟩
        rw [if_pos rfl, List.mem_filter, decide_eq_true_eq] at hmem
        simp [CapturePlan.raises, hmem.2] at hraises
      have hloud : noForward = false → (if noForward then plans.filter fun plan =>
          plan.isStore = false else plans) = plans := by
        rintro rfl
        rfl
      rw [CaptureScheduling.step, buildPlans, Leaks]
      generalize (if noForward then plans.filter fun plan => plan.isStore = false else plans) = kept at *
      have hlive := @reservePlans_live c topology pool kept s.leases
      have hraise := @reservePlans_raises c topology pool kept s.leases
      have hdeclined := @reservePlans_declined c topology pool s.leases kept
      have hpins := @reservePlans_pins c topology pool s.leases kept
      generalize reservePlans c topology pool s.leases kept = built at *
      obtain ⟨accepted, leases⟩ := built
      cases accepted with
      | ok accepted =>
          have hnoLeak : ¬(¬s.leases.Declines c ∧ noForward = false ∧ raisesAfter topology pool false plans = true) := by
            rintro ⟨hopen, hforward, hafter⟩
            obtain ⟨e, he⟩ := ((hpins hopen).1 (hloud hforward ▸ hafter)).1
            cases he
          refine ⟨fun _ => hnoLeak, fun _ job hjob => ?_⟩
          exact List.mem_append.mpr (((hlive.2 accepted rfl job).mp hjob).imp_left (hall job))
      | error e =>
          by_cases hdeclines : s.leases.Declines c
          · have hsame : leases = s.leases := hdeclined hdeclines
            rw [hsame]
            exact ⟨fun _ hleaks => hleaks.1 hdeclines, fun _ => hall⟩
          have hforward : noForward = false := by
            rw [← Bool.not_eq_true]
            exact fun hno => hquiet hno (hraise.mp ⟨e, rfl⟩)
          rw [hloud hforward] at hpins
          cases hafter : raisesAfter topology pool false plans with
          | false =>
              have hsame : leases = s.leases := (hpins hdeclines).2 hafter ⟨e, rfl⟩
              rw [hsame]
              exact ⟨fun _ hleaks => (nomatch hleaks.2.2), fun _ => hall⟩
          | true =>
              refine ⟨fun hdispatched => ?_, fun hcalm => absurd ⟨hdeclines, hforward, rfl⟩ hcalm⟩
              have hmem := hdispatched _ ((hpins hdeclines).1 hafter).2
              obtain hbefore | hfreed := htracked _ hmem
              · exact absurd h.fresh hbefore
              · have hle := (h.freed _ hfreed).2.1
                dsimp only at hle
                omega

theorem reports_invalid {r : ReadReport} (h : r.Invalid c) : s.reports c [r] = s := by
  have hranks : ∀ {ranks : List ℤ}, (∃ rank ∈ ranks, ¬(0 ≤ rank ∧ rank < c.ranks)) →
      checkRanks c ranks = .error .invalidRank := by
    rintro ranks ⟨rank, hmem, hrank⟩
    exact if_neg fun hall => hrank (hall rank hmem)
  cases r with
  | uncertain job ranks =>
      rw [reports, report, quarantine]
      cases hlookup : s.leases.leases.lookup job with
      | none => rfl
      | some lease =>
          rw [hranks h]
          rfl
  | completed job ranks =>
      rw [reports, report, complete]
      cases hlookup : s.leases.leases.lookup job with
      | none =>
          show CaptureScheduling.mk s.leases s.dispatched _ _ = s
          simp
      | some lease =>
          rw [hranks h]
          rfl

/-- Whatever the scheduler builds and the workers report, the references on a block are the live leases that
name it, a lease goes once, when every rank has acknowledged it, and their number is bounded. The live
leases are for dispatched plans as long as no step leaks, and no longer. -/
theorem leases_accounted (c : ReadLeaseConfig) (topology : List GroupTopology) (events : List SchedulerEvent) :
    let s := Run.exec (step c topology) initial events
    (∀ b, s.leases.references b = s.leases.naming b) ∧
      (s.freed.Nodup ∧ ∀ job ∈ s.freed, s.leases.leases.lookup job = none ∧
        ∀ rank < c.ranks, (job, rank) ∈ s.acknowledged) ∧
      (∀ n, 0 < n → n ≤ s.leases.sequence →
        s.leases.leases.lookup ⟨c.epoch, n⟩ ≠ none ∨ (⟨c.epoch, n⟩ : CaptureJob) ∈ s.freed) ∧
      (∀ r : ReadReport, r.Invalid c → s.reports c [r] = s) ∧
      s.leases.leases.size ≤ c.maxJobs ∧
      (Run.Throughout (step c topology) (fun s event => ¬Leaks c topology s.leases event) initial events →
        s.AllDispatched) ∧
      (s.AllDispatched → ∀ event, (s.step c topology event).AllDispatched ↔ ¬Leaks c topology s.leases event) := by
  have hboth : (Run.exec (step c topology) initial events).Holds c ∧
      (Run.exec (step c topology) initial events).Tracked :=
    @Run.invariant _ _ (step c topology) (fun s => s.Holds c ∧ s.Tracked)
      (fun s event hs => ⟨hs.1.step topology event, hs.2.step event⟩) _
      ⟨initial_holds c, fun job hjob => nomatch hjob⟩ events
  obtain ⟨h, htracked⟩ := hboth
  refine ⟨h.references, ⟨h.once, fun job hjob => ⟨(h.freed job hjob).1, (h.freed job hjob).2.2⟩⟩, h.kept,
    fun r hr => reports_invalid hr, h.count, fun hcalm => ?_, fun hall event => allDispatched_step h htracked hall event⟩
  have hall : (Run.exec (step c topology) initial events).Holds c ∧
      (Run.exec (step c topology) initial events).Tracked ∧ (Run.exec (step c topology) initial events).AllDispatched :=
    @Run.Throughout.preserves _ _ (step c topology) _ (fun s => s.Holds c ∧ s.Tracked ∧ s.AllDispatched) _ _ hcalm
      (fun s event hs hevent => ⟨hs.1.step topology event, hs.2.1.step event,
        (allDispatched_step hs.1 hs.2.1 hs.2.2 event).mpr hevent⟩)
      ⟨initial_holds c, fun job hjob => (nomatch hjob), fun job hlive => absurd rfl hlive⟩
  exact hall.2.2

/-- Pages of sixteen tokens with a window of two pages. -/
def slidingTopology : List GroupTopology := [⟨16, .sliding, some 32, by decide, by decide⟩]

def pairConfig : ReadLeaseConfig := ⟨"epoch", 2, 4, by decide⟩

def smallPool : BlockPool := ⟨16, fun _ => true⟩

/-- A plan whose window is resident. -/
def residentPlan : CapturePlan := ⟨"early", true, 32, [[3, 4]], []⟩

/-- A plan of a request that has gone on: the first pages of its table are null. -/
def passedPlan : CapturePlan := ⟨"late", true, 32, [[0, 0, 8, 9]], []⟩

theorem leases_accounted_resident :
    (Run.exec (step pairConfig slidingTopology) initial
      [.build smallPool false [residentPlan], .output [.completed ⟨"epoch", 1⟩ [0]]]).AllDispatched :=
  (leases_accounted pairConfig slidingTopology _).2.2.2.2.2.1 (by decide)

/-- The second plan raises, and the lease of the first stays on its blocks without a job in any metadata. -/
theorem leases_leaked :
    let s := Run.exec (step pairConfig slidingTopology) initial [.build smallPool false [residentPlan, passedPlan]]
    ¬s.AllDispatched ∧ s.dispatched = [] ∧ s.leases.leases.size = 1 := by
  refine ⟨fun hall => ?_, by decide, by decide⟩
  exact absurd (hall ⟨"epoch", 1⟩ (by decide)) (by decide)

end CaptureScheduling
end SparkCache.Streaming
