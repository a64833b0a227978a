import SparkCache.Maintenance.Pass

/-!
# The roots that a pass selects

Without a deletion budget a pass selects what is invalid or expired and, under
capacity pressure, the shortest run of the other unprotected roots. What it
projects is what the roots that are left keep alive.
-/
namespace SparkCache.Maintenance

/-! ## Projections -/

/-- The bytes of some roots and of what they refer to. -/
def liveBytes (segments : Objects (Str × Str)) (chunks : Objects Str)
    (remaining : List CapacityEntry) : ℕ :=
  (remaining.map CapacityEntry.manifestBytes).sum +
    References.live chunks.size (remaining.flatMap CapacityEntry.chunkReferences) +
    References.live segments.size (remaining.flatMap CapacityEntry.segmentReferences)

/-- The entries that are not among some others. -/
def without (entries removed : List CapacityEntry) : List CapacityEntry :=
  entries.filter fun entry => decide (entry.path ∉ removed.map CapacityEntry.path)

/-- A selection projects what the entries that it leaves keep alive. -/
structure Projects (context : SelectionContext) (entries : List CapacityEntry) (s : Selection) :
    Prop where
  bytes : s.projectedBytes = liveBytes context.segments context.chunks (without entries s.selected)
  references : s.projectedReferences =
    References.count ((without entries s.selected).flatMap CapacityEntry.chunkReferences)
  segmentReferences : s.projectedSegmentReferences =
    References.count ((without entries s.selected).flatMap CapacityEntry.segmentReferences)

theorem without_append (entries removed : List CapacityEntry) (entry : CapacityEntry) :
    without entries (removed ++ [entry]) =
      (without entries removed).filter fun e => decide (e.path ≠ entry.path) := by
  unfold without
  rw [List.filter_filter]
  apply List.filter_congr
  intro e _
  rw [List.map_append, List.map_singleton, ← Bool.decide_and]
  apply decide_eq_decide.mpr
  rw [List.mem_append, List.mem_singleton, not_or, and_comm]

/-- One of the entries and the others. -/
theorem without_perm {entries removed : List CapacityEntry} {entry : CapacityEntry}
    (hnodup : (entries.map CapacityEntry.path).Nodup) (hmem : entry ∈ entries)
    (hpath : entry.path ∉ removed.map CapacityEntry.path) :
    (without entries removed).Perm (entry :: without entries (removed ++ [entry])) := by
  have hleft : entry ∈ without entries removed := by
    rw [without, List.mem_filter]
    exact ⟨hmem, decide_eq_true hpath⟩
  have hpaths : ((without entries removed).map CapacityEntry.path).Nodup :=
    hnodup.sublist (List.filter_sublist.map _)
  obtain ⟨before, after, heq⟩ := List.append_of_mem hleft
  rw [heq, List.map_append, List.map_cons] at hpaths
  have hsplit := List.nodup_middle.mp hpaths
  rw [List.nodup_cons, List.mem_append, not_or] at hsplit
  have hkeep : ∀ l : List CapacityEntry, entry.path ∉ l.map CapacityEntry.path →
      l.filter (fun e => decide (e.path ≠ entry.path)) = l := by
    intro l hl
    rw [List.filter_eq_self]
    intro e he
    exact decide_eq_true fun h => hl (h ▸ List.mem_map_of_mem he)
  rw [without_append, heq, List.filter_append, List.filter_cons_of_neg (by simp),
    hkeep before hsplit.1.1, hkeep after hsplit.1.2]
  exact List.perm_middle

theorem Projects.add {context : SelectionContext} {entries : List CapacityEntry} {s : Selection}
    {entry : CapacityEntry} (h : Projects context entries s)
    (hnodup : (entries.map CapacityEntry.path).Nodup) (hmem : entry ∈ entries)
    (hpath : entry.path ∉ s.selected.map CapacityEntry.path) :
    Projects context entries (s.add context entry) := by
  have hperm := without_perm hnodup hmem hpath
  obtain ⟨left, hleft⟩ : ∃ left, without entries (s.selected ++ [entry]) = left := ⟨_, rfl⟩
  rw [hleft] at hperm
  have hchunks := hperm.flatMap_right CapacityEntry.chunkReferences
  have hsegments := hperm.flatMap_right CapacityEntry.segmentReferences
  have hmanifests := (hperm.map CapacityEntry.manifestBytes).sum_eq
  rw [List.flatMap_cons] at hchunks hsegments
  rw [List.map_cons, List.sum_cons] at hmanifests
  have hliveChunks := @References.live_perm _ _ context.chunks.size _ _ hchunks
  have hliveSegments := @References.live_perm _ _ context.segments.size _ _ hsegments
  have hbytes : s.projectedBytes - entry.manifestBytes =
      ((left.map CapacityEntry.manifestBytes).sum : ℕ) + References.live context.segments.size
        (entry.segmentReferences ++ left.flatMap CapacityEntry.segmentReferences) +
        References.live context.chunks.size
          (entry.chunkReferences ++ left.flatMap CapacityEntry.chunkReferences) := by
    rw [h.bytes, liveBytes, hmanifests, hliveChunks, hliveSegments]
    simp only [Nat.cast_add]
    ring
  have hreferences := h.references.trans (References.count_perm hchunks)
  have hsegmentReferences := h.segmentReferences.trans (References.count_perm hsegments)
  have hadd : s.add context entry =
      ⟨((left.map CapacityEntry.manifestBytes).sum : ℕ) + References.live context.chunks.size (left.flatMap CapacityEntry.chunkReferences) +
          References.live context.segments.size (left.flatMap CapacityEntry.segmentReferences),
        References.count (left.flatMap CapacityEntry.chunkReferences),
        References.count (left.flatMap CapacityEntry.segmentReferences), s.selected ++ [entry],
        s.workPending⟩ := by
    rw [Selection.add, hreferences, hbytes, References.release_eq]
    dsimp only
    rw [add_right_comm, hsegmentReferences, References.release_eq]
  rw [hadd]
  refine ⟨?_, by rw [hleft], by rw [hleft]⟩
  rw [hleft, liveBytes]
  simp only [Nat.cast_add]

/-! ## Runs of a selection -/

/-- Some entries are added one after another. -/
def addAll (context : SelectionContext) (s : Selection) (added : List CapacityEntry) : Selection :=
  added.foldl (fun s entry => s.add context entry) s

theorem addAll_append (context : SelectionContext) (s : Selection) (a b : List CapacityEntry) :
    addAll context s (a ++ b) = addAll context (addAll context s a) b :=
  List.foldl_append

theorem add_selected (context : SelectionContext) (s : Selection) (entry : CapacityEntry) :
    (s.add context entry).selected = s.selected ++ [entry] := rfl

theorem addAll_selected (context : SelectionContext) (s : Selection) (added : List CapacityEntry) :
    (addAll context s added).selected = s.selected ++ added := by
  induction added generalizing s with
  | nil => exact (List.append_nil _).symm
  | cons entry rest ih =>
      rw [addAll, List.foldl_cons, ← addAll, ih, add_selected, List.append_assoc]
      rfl

theorem Projects.addAll {context : SelectionContext} {entries : List CapacityEntry} {s : Selection}
    {added : List CapacityEntry} (h : Projects context entries s)
    (hnodup : (entries.map CapacityEntry.path).Nodup) (hmem : ∀ e ∈ added, e ∈ entries)
    (hpaths : ((s.selected ++ added).map CapacityEntry.path).Nodup) :
    Projects context entries (addAll context s added) := by
  induction added generalizing s with
  | nil => exact h
  | cons entry rest ih =>
      have hsplit := hpaths
      rw [List.map_append, List.map_cons, List.nodup_middle, List.nodup_cons, List.mem_append,
        not_or] at hsplit
      refine ih (h.add hnodup (hmem entry List.mem_cons_self) hsplit.1.1)
        (fun e he => hmem e (List.mem_cons_of_mem _ he)) ?_
      rw [add_selected, List.append_assoc]
      exact hpaths

section Runs
variable {context : SelectionContext} {entries : List CapacityEntry}

theorem select_eq (hbudget : context.maxDeletions = 0) (s : Selection) (entry : CapacityEntry) :
    select context s entry = if exempt context s entry then s else s.add context entry := by
  unfold select
  split_ifs with h₁ h₂ h₃
  · rfl
  · omega
  · omega
  · rfl

/-- An entry that is added exempts no other. -/
theorem exempt_add {s : Selection} {entry other : CapacityEntry} (h : other.path ≠ entry.path) :
    exempt context (s.add context entry) other ↔ exempt context s other := by
  unfold exempt
  rw [add_selected, List.map_append, List.mem_append, List.map_singleton, List.mem_singleton]
  simp [h]

theorem filter_exempt_add {s : Selection} {entry : CapacityEntry} {rest : List CapacityEntry}
    (h : entry.path ∉ rest.map CapacityEntry.path) :
    (rest.filter fun e => decide (¬ exempt context (s.add context entry) e)) =
      rest.filter fun e => decide (¬ exempt context s e) := by
  apply List.filter_congr
  intro e he
  have hne : e.path ≠ entry.path := fun heq => h (heq ▸ List.mem_map_of_mem he)
  exact decide_eq_decide.mpr (not_congr (exempt_add hne))

theorem foldl_select (hbudget : context.maxDeletions = 0) {doomed : List CapacityEntry}
    (hnodup : (doomed.map CapacityEntry.path).Nodup) (s : Selection) :
    doomed.foldl (select context) s =
      addAll context s (doomed.filter fun e => decide (¬ exempt context s e)) := by
  induction doomed generalizing s with
  | nil => rfl
  | cons entry rest ih =>
      rw [List.map_cons, List.nodup_cons] at hnodup
      rw [List.foldl_cons, select_eq hbudget]
      by_cases h : exempt context s entry
      · rw [if_pos h, ih hnodup.2, List.filter_cons_of_neg (by simpa using h)]
      · rw [if_neg h, ih hnodup.2, filter_exempt_add hnodup.1,
          List.filter_cons_of_pos (by simpa using h)]
        rfl

/-- Under pressure the shortest run of entries is selected that brings the projection down. -/
theorem selectForCapacity_eq (hbudget : context.maxDeletions = 0) {low : ℕ}
    (hnodup : (entries.map CapacityEntry.path).Nodup) {s : Selection} (hs : low < s.projectedBytes) :
    let candidates := entries.filter fun e => decide (¬ exempt context s e)
    ∃ k ≤ candidates.length,
      selectForCapacity context low s entries = addAll context s (candidates.take k) ∧
      (∀ j < k, low < (addAll context s (candidates.take j)).projectedBytes) ∧
      ((addAll context s (candidates.take k)).projectedBytes ≤ low ∨ k = candidates.length) := by
  induction entries generalizing s with
  | nil => exact ⟨0, le_refl 0, rfl, by simp, .inr rfl⟩
  | cons entry rest ih =>
      rw [List.map_cons, List.nodup_cons] at hnodup
      rw [selectForCapacity, select_eq hbudget]
      by_cases h : exempt context s entry
      · rw [if_pos h, List.filter_cons_of_neg (by simpa using h)]
        dsimp only
        rw [if_neg (not_le.mpr hs)]
        exact ih hnodup.2 hs
      · rw [if_neg h, List.filter_cons_of_pos (by simpa using h)]
        dsimp only
        by_cases hlow : (s.add context entry).projectedBytes ≤ low
        · rw [if_pos hlow]
          refine ⟨1, by simp, rfl, fun j hj => ?_, .inl hlow⟩
          obtain rfl : j = 0 := by omega
          exact hs
        · rw [if_neg hlow]
          obtain ⟨k, hk, hrun, hbefore, hstop⟩ := ih hnodup.2 (not_le.mp hlow)
          rw [filter_exempt_add hnodup.1] at hk hrun hbefore hstop
          refine ⟨k + 1, by simpa using hk, hrun, fun j hj => ?_, ?_⟩
          · cases j with
            | zero => exact hs
            | succ j => exact hbefore j (by omega)
          · rcases hstop with hstop | hstop
            · exact .inl hstop
            · exact .inr (by rw [hstop, List.length_cons])

end Runs

/-! ## What is selected -/

/-- A valid root that the caller protects. -/
def isProtected (protectedEntries : List EntryKey) (entry : CapacityEntry) : Bool :=
  entry.valid && decide (entry.key ∈ protectedEntries)

/-- A root that goes whatever the capacity: invalid, or expired and not protected. -/
def doomed (policy : CapacityPolicy) (nowNs : ℤ) (protectedEntries : List EntryKey)
    (entry : CapacityEntry) : Bool :=
  (!entry.valid || expired policy nowNs entry) && !isProtected protectedEntries entry

/-- The other unprotected roots, least recently used first. -/
def candidates (policy : CapacityPolicy) (nowNs : ℤ) (protectedEntries : List EntryKey)
    (entries : List CapacityEntry) : List CapacityEntry :=
  (ordered entries).filter fun entry =>
    !doomed policy nowNs protectedEntries entry && !isProtected protectedEntries entry

theorem ordered_perm (entries : List CapacityEntry) : (ordered entries).Perm entries :=
  List.perm_insertionSort _ _

instance : Std.Total OlderUse := ⟨fun _ _ => le_total _ _⟩

instance : IsTrans CapacityEntry OlderUse := ⟨fun _ _ _ => le_trans⟩

theorem ordered_pairwise (entries : List CapacityEntry) : (ordered entries).Pairwise OlderUse :=
  List.pairwise_insertionSort _ _

theorem nodup_of_path {entries : List CapacityEntry} (h : (entries.map CapacityEntry.path).Nodup)
    {a b : CapacityEntry} (ha : a ∈ entries) (hb : b ∈ entries) (hpath : a.path = b.path) : a = b :=
  List.inj_on_of_nodup_map h ha hb hpath

section Select
variable {context : SelectionContext} {policy : CapacityPolicy} {nowNs : ℤ}
  {entries : List CapacityEntry}

theorem selectEntries_eq (hbudget : context.maxDeletions = 0)
    (hnodup : (entries.map CapacityEntry.path).Nodup) {s : Selection} (hs : s.selected = [])
    (pressureTriggered : Bool) :
    let gone := (ordered entries).filter (doomed policy nowNs context.protectedEntries)
    let others := candidates policy nowNs context.protectedEntries entries
    ∃ k ≤ others.length,
      selectEntries context policy nowNs pressureTriggered entries s =
        addAll context s (gone ++ others.take k) ∧
      if pressureTriggered = true then
        (∀ j < k, policy.lowWatermarkBytes <
          (addAll context s (gone ++ others.take j)).projectedBytes) ∧
        ((addAll context s (gone ++ others.take k)).projectedBytes ≤ policy.lowWatermarkBytes ∨
          k = others.length)
      else k = 0 := by
  have hordered : ((ordered entries).map CapacityEntry.path).Nodup :=
    ((ordered_perm entries).map CapacityEntry.path).nodup_iff.mpr hnodup
  have hexempt : ∀ e, exempt context s e ↔ isProtected context.protectedEntries e = true := by
    intro e
    simp [exempt, hs, isProtected]
  have hgone : ((ordered entries).filter fun e => !e.valid || expired policy nowNs e).foldl
      (select context) s = addAll context s ((ordered entries).filter
        (doomed policy nowNs context.protectedEntries)) := by
    rw [foldl_select hbudget (hordered.sublist (List.filter_sublist.map _)), List.filter_filter]
    congr 1
    apply List.filter_congr
    intro e _
    rw [Bool.eq_iff_iff, Bool.and_eq_true, decide_eq_true_iff, hexempt, doomed, Bool.and_eq_true]
    simp [and_comm]
  dsimp only
  unfold selectEntries
  rw [hgone]
  generalize hgoneList : (ordered entries).filter
    (doomed policy nowNs context.protectedEntries) = gone at *
  have hselected : (addAll context s gone).selected = gone := by
    rw [addAll_selected, hs, List.nil_append]
  have hcandidates : ((ordered entries).filter fun e =>
      decide (¬ exempt context (addAll context s gone) e)) =
      candidates policy nowNs context.protectedEntries entries := by
    apply List.filter_congr
    intro e he
    have hmem : e.path ∈ gone.map CapacityEntry.path ↔
        doomed policy nowNs context.protectedEntries e = true := by
      rw [← hgoneList]
      constructor
      · intro h
        obtain ⟨e', he', hpath⟩ := List.mem_map.mp h
        obtain ⟨hmem', hdoomed⟩ := List.mem_filter.mp he'
        rwa [← nodup_of_path hordered hmem' he hpath]
      · intro h
        exact List.mem_map_of_mem (List.mem_filter.mpr ⟨he, h⟩)
    rw [Bool.eq_iff_iff, decide_eq_true_iff, exempt, hselected, hmem]
    cases hvalid : e.valid <;> simp [isProtected, hvalid]
  by_cases hpressure : pressureTriggered = true ∧
      policy.lowWatermarkBytes < (addAll context s gone).projectedBytes
  · rw [if_pos hpressure]
    obtain ⟨k, hk, hrun, hbefore, hstop⟩ := selectForCapacity_eq hbudget hordered hpressure.2
    rw [hcandidates] at hk hrun hbefore hstop
    refine ⟨k, hk, by rw [hrun, addAll_append], ?_⟩
    rw [if_pos hpressure.1]
    constructor
    · intro j hj
      rw [addAll_append]
      exact hbefore j hj
    · rw [addAll_append]
      exact hstop
  · rw [if_neg hpressure]
    refine ⟨0, Nat.zero_le _, by rw [List.take_zero, List.append_nil], ?_⟩
    split_ifs with htriggered
    · refine ⟨by simp, .inl ?_⟩
      rw [List.take_zero, List.append_nil]
      exact not_lt.mp fun h => hpressure ⟨htriggered, h⟩
    · rfl

end Select

end SparkCache.Maintenance
