import SparkCache.Pages.Composition

/-!
# The composed history

What `compose_page_history` writes and reads once the ranges of a chain are
placed, and the comparison of the three ways to the newest snapshot.
-/
namespace SparkCache.Pages

/-! ## Writing -/

section Write
variable {plans : List PageDeltaPlan} {stages : List DeltaStage} {base : Bytes} {i : ℕ}

/-- The calls of `read_tail` for a range of a layer. -/
def rangeReads (plans : List PageDeltaPlan) (destination : ℕ) (range : Range) : List TailRead :=
  match range.owner with
  | none => []
  | some stage => (tailAt? plans stage destination).toList.map (stage, ·)

/-- The tails of a stage are what its header says. -/
def Intact (plans : List PageDeltaPlan) (stages : List DeltaStage) : Prop :=
  ∀ (j : ℕ) (plan : PageDeltaPlan), plans[j]? = some plan →
    ∃ stage, stages[j]? = some stage ∧ plan.integrity = .sha256 ∧ ∀ tail ∈ plan.tails,
      tail.sourceEnd ≤ stage.encoded.length ∧ some (sha256 (stage.tailBytes tail)) = tail.sha256

/-- A range that a stage owns starts at the start of a tail of that stage. -/
def Owned (plans : List PageDeltaPlan) (destination : ℕ) (range : Range) : Prop :=
  ∀ j, range.owner = some j → range.source = 0 ∧ ∃ tail, tailAt? plans j destination = some tail

theorem readRange_eq (h : Intact plans stages) {range : Range} (ho : Owned plans i range) :
    readRange base plans (readStageTail stages) i range =
      .ok (Patchwork.content (ownerBytes plans stages base i) range, rangeReads plans i range) := by
  unfold readRange rangeReads
  cases hrange : range.owner with
  | none =>
      dsimp only
      rw [Patchwork.content, hrange, slice, Nat.add_sub_cancel_left]
      rfl
  | some j =>
      obtain ⟨hsource, tail, htail⟩ := ho j hrange
      have hbind := htail
      unfold tailAt? at hbind
      obtain ⟨plan, hplan, hget⟩ := Option.bind_eq_some_iff.mp hbind
      obtain ⟨stage, hstage, hintegrity, htails⟩ := h j plan hplan
      obtain ⟨hbounded, hdigest⟩ := htails tail (List.mem_of_getElem? hget)
      have hlen : (stage.tailBytes tail).length = tail.sourceEnd - tail.sourceStart :=
        slice_length hbounded
      have hread : readStageTail stages j tail = .ok (stage.tailBytes tail) := by
        rw [readStageTail, hstage]
      have hcontent : Patchwork.content (ownerBytes plans stages base i) range =
          (stage.tailBytes tail).take (range.stop - range.start) := by
        rw [Patchwork.content, hrange, hsource, List.drop_zero]
        simp [ownerBytes, hstage, htail]
      have hfound : (plans[j]?.bind fun plan => (plan.tails[i]?).map (plan, ·)) =
          some (plan, tail) := by
        rw [hplan, Option.bind_some, hget]
        rfl
      dsimp only
      rw [hfound, htail, hcontent]
      dsimp only
      simp only [bind_eq_ok, require_eq_ok]
      refine ⟨_, hread, (), ⟨hlen, ?_⟩, rfl⟩
      rw [hintegrity, payloadMatches]
      exact decide_eq_true hdigest

theorem writeRanges_eq (h : Intact plans stages) {span : PagePayloadSpan} {ranges : List Range}
    {covered last : ℕ} {before written pad after : Bytes}
    (hspan : before.length = span.sourceStart) (hlast : last = span.sourceEnd - span.sourceStart)
    (hc : Patchwork.Contiguous covered ranges last) (hw : written.length = covered)
    (hp : pad.length = last - covered)
    (hb : ∀ range ∈ ranges, Patchwork.Backed (ownerBytes plans stages base i) range)
    (ho : ∀ range ∈ ranges, Owned plans i range) :
    writeRanges base plans (readStageTail stages) i span covered (before ++ written ++ pad ++ after)
        ranges =
      .ok (before ++ written ++ Patchwork.render (ownerBytes plans stages base i) ranges ++ after,
        ranges.flatMap (rangeReads plans i)) := by
  induction ranges generalizing covered written pad with
  | nil =>
      have heq : covered = last := hc
      have hpad : pad = [] := List.eq_nil_of_length_eq_zero (by omega)
      subst hpad
      rw [writeRanges]
      simp only [bind_eq_ok, require_eq_ok]
      exact ⟨(), heq.trans hlast, rfl⟩
  | cons range rest ih =>
      obtain ⟨hstart, hlt, hrest⟩ := hc
      have hle := hrest.le
      have hlength := Patchwork.content_length (hb range List.mem_cons_self)
      have hsplit : pad = pad.take (range.stop - range.start) ++ pad.drop (range.stop - range.start) :=
        (List.take_append_drop _ _).symm
      have hassign : assign (before ++ written ++ pad.take (range.stop - range.start) ++
          (pad.drop (range.stop - range.start) ++ after)) (span.sourceStart + range.start)
          (span.sourceStart + range.stop)
          (Patchwork.content (ownerBytes plans stages base i) range) =
          .ok (before ++ written ++ Patchwork.content (ownerBytes plans stages base i) range ++
            (pad.drop (range.stop - range.start) ++ after)) := by
        apply assign_append
        · rw [List.length_append, hspan, hw, hstart]
        · rw [List.length_take]
          omega
        · rw [hlength, List.length_take]
          omega
      have hnext := @ih range.stop
        (written ++ Patchwork.content (ownerBytes plans stages base i) range)
        (pad.drop (range.stop - range.start)) hrest
        (by rw [List.length_append, hw, hlength]; omega)
        (by rw [List.length_drop]; omega)
        (fun x hx => hb x (List.mem_cons_of_mem _ hx))
        (fun x hx => ho x (List.mem_cons_of_mem _ hx))
      rw [writeRanges]
      simp only [bind_eq_ok, require_eq_ok, Prod.exists]
      refine ⟨(), hstart, _, _, readRange_eq h (ho range List.mem_cons_self), _, ?_, _, _, hnext, ?_⟩
      · rw [hsplit]
        simp only [List.append_assoc] at hassign ⊢
        rw [← hsplit]
        exact hassign
      · unfold Patchwork.render
        rw [List.flatMap_cons, List.flatMap_cons]
        simp only [List.append_assoc]
        rfl

/-- The calls of `read_tail` for the layers from an index on. -/
def layerReads (plans : List PageDeltaPlan) : ℕ → List (List Range) → List TailRead
  | _, [] => []
  | destination, ranges :: more =>
      ranges.flatMap (rangeReads plans destination) ++ layerReads plans (destination + 1) more

theorem writeLayers_eq (h : Intact plans stages) {counts : List ℕ} {ps : List (ℕ × PageLayer)}
    {layers : List Bytes} {ranges : List (List Range)} {before pad : Bytes} {k : ℕ}
    (hl : Sized counts ps layers) (hlength : ranges.length = layers.length)
    (hpad : pad.length = (ps.map (layerBytes counts)).sum)
    (ht : ∀ (n : ℕ) (layer : Bytes) (row : List Range), layers[n]? = some layer →
      ranges[n]? = some row → (∀ range ∈ row, Owned plans (i + n) range) ∧
        Patchwork.Tiles (ownerBytes plans stages base (i + n)) (cutAt plans (i + n)) k layer row) :
    writeLayers base plans (readStageTail stages) i (before ++ pad)
        (spanList counts before.length ps) ranges =
      .ok (before ++ layers.flatten, layerReads plans i ranges) := by
  induction hl generalizing ranges before pad i with
  | nil =>
      have hnil : ranges = [] := List.eq_nil_of_length_eq_zero hlength
      have hpad' : pad = [] := List.eq_nil_of_length_eq_zero hpad
      subst hnil hpad'
      rfl
  | @cons p layer ps layers hp _ ih =>
      obtain ⟨row, more, rfl⟩ := List.exists_cons_of_length_eq_add_one hlength
      rw [List.map_cons, List.sum_cons] at hpad
      obtain ⟨howned, htiles⟩ := ht 0 layer row rfl rfl
      rw [Nat.add_zero] at howned htiles
      have hwrite : writeRanges base plans (readStageTail stages) i
          ⟨p.2.name, p.1, before.length, before.length + layerBytes counts p,
            counts.getD p.1 0, p.2.bytesPerPage⟩ 0
          (before ++ [] ++ pad.take layer.length ++ pad.drop layer.length) row =
          .ok (before ++ [] ++ Patchwork.render (ownerBytes plans stages base i) row ++
            pad.drop layer.length, row.flatMap (rangeReads plans i)) := by
        apply writeRanges_eq h rfl ?_ htiles.contiguous rfl ?_ htiles.backed howned
        · rw [hp, Nat.add_sub_cancel_left]
        · rw [List.length_take]
          omega
      rw [htiles.render, List.append_nil, List.append_assoc, List.take_append_drop] at hwrite
      have hnext := @ih (i + 1) more (before ++ layer) (pad.drop layer.length)
        (by simpa using hlength) (by rw [List.length_drop]; omega)
        (fun n l r hn hr => by
          have hnr := ht (n + 1) l r hn hr
          rwa [Nat.add_comm n 1, ← Nat.add_assoc] at hnr)
      rw [spanList, writeLayers]
      simp only [bind_eq_ok, Prod.exists]
      refine ⟨_, _, hwrite, _, _, ?_, rfl⟩
      rw [List.length_append, hp] at hnext
      rw [List.flatten_cons, ← List.append_assoc, hp]
      exact hnext

end Write

/-! ## Placed ranges of a chain -/

theorem planPageSnapshot_positive {layout : PageLayout} {encoded : Bytes} {counts : List ℕ}
    {total : Option ℕ} {plan : PageSnapshotPlan}
    (h : planPageSnapshot layout encoded counts total = .ok plan) {p : ℕ × PageLayer}
    (hp : p ∈ layout.layers) : 0 < layerBytes counts p := by
  have hlength := (planPageSnapshot_eq_ok h).1
  unfold planPageSnapshot at h
  simp only [bind_eq_ok, require_eq_ok, Prod.exists] at h
  obtain ⟨-, -, -, -, hpositive, -⟩ := h
  have hlt : p.1 < counts.length := by
    rw [hlength]
    exact layout.layers_index_lt hp
  unfold layerBytes
  rw [List.getD_eq_getElem _ _ hlt]
  exact Nat.mul_pos (hpositive _ (List.getElem_mem hlt)) p.2.positive.1

theorem spanList_getElem? {counts : List ℕ} {offset : ℕ} {ps : List (ℕ × PageLayer)} {i : ℕ}
    {span : PagePayloadSpan} (h : (spanList counts offset ps)[i]? = some span) :
    ∃ p, ps[i]? = some p ∧ span.sourceEnd = span.sourceStart + layerBytes counts p := by
  induction ps generalizing offset i with
  | nil => cases h
  | cons p ps ih =>
      cases i with
      | zero =>
          cases h
          exact ⟨p, rfl, rfl⟩
      | succ i => exact ih h

/-- The ranges before the first stage. -/
theorem tiled_start {layout : PageLayout} {payload : Bytes} {counts : List ℕ}
    {plan : PageSnapshotPlan} (h : planPageSnapshot layout payload counts none = .ok plan)
    (plans : List PageDeltaPlan) (stages : List DeltaStage) :
    Tiled plans stages payload 0 (spanPayloads payload plan.spans)
      (plan.spans.map fun span =>
        [⟨0, span.sourceEnd - span.sourceStart, none, span.sourceStart⟩]) := by
  refine ⟨by rw [spanPayloads, List.length_map, List.length_map], ?_⟩
  intro i layer row hlayer hrow
  unfold spanPayloads at hlayer
  rw [List.getElem?_map] at hlayer hrow
  obtain ⟨span, hspan, rfl⟩ := Option.map_eq_some_iff.mp hlayer
  rw [hspan] at hrow
  cases hrow
  obtain ⟨-, -, hspans, -⟩ := planPageSnapshot_eq_ok h
  obtain ⟨p, hp, hend⟩ := spanList_getElem? (hspans ▸ hspan)
  have hsize : (slice payload span.sourceStart span.sourceEnd).length = layerBytes counts p := by
    apply (Decodes.of_plan h).sized.getElem? hp
    unfold spanPayloads
    rw [List.getElem?_map, hspan]
    rfl
  have hlength : span.sourceEnd - span.sourceStart =
      (slice payload span.sourceStart span.sourceEnd).length := by
    rw [hsize, hend, Nat.add_sub_cancel_left]
  dsimp only
  rw [hlength]
  apply Patchwork.Tiles.start
  · rw [hsize]
    exact planPageSnapshot_positive h (List.mem_of_getElem? hp)
  · rw [← hlength]
    rfl

section Chain
variable {layout : PageLayout} {base result : VerifiedPageSnapshot} {counts : List ℕ} {boundary : ℕ}
  {stages : List DeltaStage} {plans : List PageDeltaPlan}

theorem Chain.exists_stage (h : Chain layout base counts boundary stages plans result) {j : ℕ}
    (hj : j < stages.length) : ∃ stage plan, stages[j]? = some stage ∧ plans[j]? = some plan := by
  have hj' : j < plans.length := by
    rw [h.length_eq]
    exact hj
  exact ⟨_, _, List.getElem?_eq_getElem hj, List.getElem?_eq_getElem hj'⟩

theorem Chain.exists_of_plan (h : Chain layout base counts boundary stages plans result) {j : ℕ}
    {plan : PageDeltaPlan} (hp : plans[j]? = some plan) :
    ∃ stage before basePlan after, stages[j]? = some stage ∧
      Extends layout before stage.encoded plan basePlan after := by
  have hj : j < stages.length := by
    rw [← h.length_eq]
    exact (List.getElem?_eq_some_iff.mp hp).1
  obtain ⟨before, basePlan, after, hextends⟩ := h.stage (List.getElem?_eq_getElem hj) hp
  exact ⟨_, before, basePlan, after, List.getElem?_eq_getElem hj, hextends⟩

theorem Chain.intact (h : Chain layout base counts boundary stages plans result) :
    Intact plans stages := by
  intro j plan hp
  obtain ⟨stage, before, basePlan, after, hs, hextends⟩ := h.exists_of_plan hp
  refine ⟨stage, hs, hextends.integrity, ?_⟩
  intro tail htail
  obtain ⟨i, hi⟩ := List.mem_iff_getElem?.mp htail
  obtain ⟨p, -, hfit⟩ := hextends.planned.getElem? hi
  exact ⟨hfit.bounded, hextends.signed tail htail⟩

/-- The name of a stage's tail is that of its layer. -/
theorem Chain.tail_name (h : Chain layout base counts boundary stages plans result) {i j : ℕ}
    {tail : PageDeltaTail} (ht : tailAt? plans j i = some tail) :
    (layout.layers.map fun p => p.2.name)[i]? = some tail.layerName := by
  unfold tailAt? at ht
  obtain ⟨plan, hp, hget⟩ := Option.bind_eq_some_iff.mp ht
  obtain ⟨stage, before, basePlan, after, -, hextends⟩ := h.exists_of_plan hp
  obtain ⟨p, hlayer, hfit⟩ := hextends.planned.getElem? hget
  rw [List.getElem?_map, hlayer, hfit.name]
  rfl

theorem Chain.owned (h : Chain layout base counts boundary stages plans result)
    {cut : ℕ → ℕ} {read : Option ℕ → Bytes} {i : ℕ} {layer : Bytes} {row : List Range}
    (hi : i < layout.layers.length) (ht : Patchwork.Tiles read cut stages.length layer row) :
    ∀ range ∈ row, Owned plans i range := by
  intro range hrange j hj
  obtain ⟨hlt, -, hsource, -⟩ := ht.placed range hrange j hj
  obtain ⟨stage, plan, hs, hp⟩ := h.exists_stage hlt
  obtain ⟨before, basePlan, after, hextends⟩ := h.stage hs hp
  have hlength := hextends.planned.tails.length_eq
  have hi' : i < plan.tails.length := by omega
  refine ⟨hsource, plan.tails[i], ?_⟩
  unfold tailAt?
  rw [hp, Option.bind_some]
  exact List.getElem?_eq_getElem hi'

end Chain

/-! ## Calls -/

theorem mem_rangeReads {plans : List PageDeltaPlan} {destination : ℕ} {range : Range} {c : TailRead}
    (h : c ∈ rangeReads plans destination range) :
    range.owner = some c.1 ∧ tailAt? plans c.1 destination = some c.2 := by
  unfold rangeReads at h
  split at h
  · cases h
  · rename_i stage howner
    obtain ⟨tail, htail, rfl⟩ := List.mem_map.mp h
    exact ⟨howner, Option.mem_toList.mp htail⟩

/-- Every call is for a range of a layer. -/
theorem mem_layerReads {plans : List PageDeltaPlan} {destination : ℕ} {ranges : List (List Range)}
    {c : TailRead} (h : c ∈ layerReads plans destination ranges) :
    ∃ n row range, ranges[n]? = some row ∧ range ∈ row ∧ range.owner = some c.1 ∧
      tailAt? plans c.1 (destination + n) = some c.2 := by
  induction ranges generalizing destination with
  | nil => cases h
  | cons row more ih =>
      rw [layerReads, List.mem_append] at h
      rcases h with h | h
      · obtain ⟨range, hrange, hc⟩ := List.mem_flatMap.mp h
        obtain ⟨howner, htail⟩ := mem_rangeReads hc
        exact ⟨0, row, range, rfl, hrange, howner, htail⟩
      · obtain ⟨n, row', range, hrow, hrange, howner, htail⟩ := ih h
        refine ⟨n + 1, row', range, hrow, hrange, howner, ?_⟩
        rw [Nat.add_comm n 1, ← Nat.add_assoc]
        exact htail

theorem rangeReads_nodup {plans : List PageDeltaPlan} {destination : ℕ} {row : List Range}
    (h : (row.map Patchwork.Patch.owner).Nodup) :
    (row.flatMap (rangeReads plans destination)).Nodup := by
  induction row with
  | nil => exact List.nodup_nil
  | cons range rest ih =>
      rw [List.map_cons, List.nodup_cons] at h
      rw [List.flatMap_cons, List.nodup_append]
      refine ⟨?_, ih h.2, ?_⟩
      · unfold rangeReads
        split
        · exact List.nodup_nil
        · cases tailAt? plans _ destination <;> simp
      · intro c hc c' hc' heq
        subst heq
        obtain ⟨range', hrange', hread'⟩ := List.mem_flatMap.mp hc'
        have howner := (mem_rangeReads hc).1
        have howner' := (mem_rangeReads hread').1
        exact h.1 (List.mem_map.mpr ⟨range', hrange', howner'.trans howner.symm⟩)

/-- The stage and the layer of a call. -/
def TailRead.site (c : TailRead) : ℕ × Str := (c.1, c.2.layerName)

theorem layerReads_nodup {plans : List PageDeltaPlan} {destination : ℕ}
    {ranges : List (List Range)} {names : List Str} (hnames : names.Nodup)
    (hname : ∀ {i j : ℕ} {tail : PageDeltaTail}, tailAt? plans j i = some tail →
      names[i]? = some tail.layerName)
    (h : ∀ row ∈ ranges, (row.map Patchwork.Patch.owner).Nodup) :
    ((layerReads plans destination ranges).map TailRead.site).Nodup := by
  -- Calls for one layer differ in the stage, calls for two layers in the name.
  have hindex : ∀ {i i' j j' : ℕ} {tail tail' : PageDeltaTail}, tailAt? plans j i = some tail →
      tailAt? plans j' i' = some tail' → tail.layerName = tail'.layerName → i = i' := by
    intro i i' j j' tail tail' ht ht' heq
    have hi := hname ht
    have hi' := hname ht'
    rw [← heq] at hi'
    have hlt := (List.getElem?_eq_some_iff.mp hi).1
    exact (List.getElem?_inj hlt hnames).mp (hi.trans hi'.symm)
  induction ranges generalizing destination with
  | nil => exact List.nodup_nil
  | cons row more ih =>
      rw [layerReads, List.map_append, List.nodup_append]
      refine ⟨?_, ih fun r hr => h r (List.mem_cons_of_mem _ hr), ?_⟩
      · apply (rangeReads_nodup (h row List.mem_cons_self)).map_on
        intro c hc c' hc' heq
        obtain ⟨range, -, hread⟩ := List.mem_flatMap.mp hc
        obtain ⟨range', -, hread'⟩ := List.mem_flatMap.mp hc'
        have htail := (mem_rangeReads hread).2
        have htail' := (mem_rangeReads hread').2
        have hstage : c.1 = c'.1 := congrArg (fun site : ℕ × Str => site.1) heq
        rw [hstage, htail'] at htail
        exact Prod.ext hstage (Option.some.inj htail).symm
      · intro site hsite site' hsite' heq
        subst heq
        obtain ⟨c, hc, rfl⟩ := List.mem_map.mp hsite
        obtain ⟨c', hc', heq⟩ := List.mem_map.mp hsite'
        obtain ⟨range, -, hread⟩ := List.mem_flatMap.mp hc
        obtain ⟨n, -, -, -, -, -, htail'⟩ := mem_layerReads hc'
        have hdestination := hindex (mem_rangeReads hread).2 htail'
          (congrArg (fun site : ℕ × Str => site.2) heq).symm
        omega

/-- No call is for a tail that a later stage overwrites. -/
theorem Chain.not_superseded {layout : PageLayout} {base result : VerifiedPageSnapshot}
    {counts : List ℕ} {boundary : ℕ} {stages : List DeltaStage} {plans : List PageDeltaPlan}
    (h : Chain layout base counts boundary stages plans result) {source : Bytes}
    {layers : List Bytes} {ranges : List (List Range)}
    (ht : Tiled plans stages source stages.length layers ranges) {c : TailRead}
    (hc : c ∈ layerReads plans 0 ranges) : ¬ Superseded plans c.1 c.2 := by
  rintro ⟨later, plan, tail', hlt, hp, htail', hname, hle⟩
  obtain ⟨n, row, range, hrow, hrange, howner, htail⟩ := mem_layerReads hc
  rw [Nat.zero_add] at htail
  have hn : n < layers.length := by
    rw [← ht.1]
    exact (List.getElem?_eq_some_iff.mp hrow).1
  have htiles := ht.2 n _ row (List.getElem?_eq_getElem hn) hrow
  obtain ⟨-, -, -, hcut⟩ := htiles.placed range hrange c.1 howner
  have hlater : later < stages.length := by
    rw [← h.length_eq]
    exact (List.getElem?_eq_some_iff.mp hp).1
  obtain ⟨n', hget⟩ := List.mem_iff_getElem?.mp htail'
  have htailAt : tailAt? plans later n' = some tail' := by
    unfold tailAt?
    rw [hp, Option.bind_some, hget]
  have hsame : n' = n := by
    have hleft := h.tail_name htailAt
    have hright := h.tail_name htail
    rw [← hname] at hright
    have hlt' := (List.getElem?_eq_some_iff.mp hleft).1
    exact (List.getElem?_inj hlt' layout.layers_nodup).mp (hleft.trans hright.symm)
  subst hsame
  have hless := hcut later hlt hlater
  simp only [cutAt, htail, htailAt, Option.map_some, Option.getD_some] at hless
  omega

/-! ## The composed snapshot -/

theorem Chain.composePageHistory {layout : PageLayout} {base result : VerifiedPageSnapshot}
    {counts : List ℕ} {boundary : ℕ} {stages : List DeltaStage} {plans : List PageDeltaPlan}
    (h : Chain layout base counts boundary stages plans result) (hne : stages ≠ [])
    (hsha : result.sha256 = sha256 result.payload) :
    ∃ calls, composePageHistory layout base counts plans (readStageTail stages) =
        .ok (result, calls) ∧ (calls.map TailRead.site).Nodup ∧
      ∀ c ∈ calls, ¬ Superseded plans c.1 c.2 := by
  obtain ⟨basePlan, hbasePlan⟩ : ∃ basePlan,
      planPageSnapshot layout base.payload counts none = .ok basePlan := by
    cases h with
    | nil => exact absurd rfl hne
    | cons _ hbase _ hextends _ => exact ⟨_, hbase ▸ hextends.basePlanned⟩
  have hcounts : basePlan.blockCounts = counts := (planPageSnapshot_eq_ok hbasePlan).2.1
  obtain ⟨counts', layers, placed, hplace, htiled, hdecodes, hend⟩ :=
    h.placeStages (List.nil_append stages).symm (List.nil_append plans).symm rfl
      (Decodes.of_plan hbasePlan) (tiled_start hbasePlan plans stages)
  obtain ⟨header, hheader, hpayload⟩ := hend.resolve_left fun hnil => hne hnil.1
  have hsize := pageSnapshotEncodedSize_eq hheader
  have hresultPlan : planPageSnapshot layout (header ++ []) counts'
      (some (header.length + payloadBytes layout counts')) = .ok _ :=
    planPageSnapshot_encoded hheader [] rfl (Nat.zero_le _)
  rw [List.append_nil] at hresultPlan
  have hlayers : layers.length = layout.layers.length := hdecodes.sized.length_eq.symm
  have hpad : (List.replicate (header.length + payloadBytes layout counts' - header.length)
      (0 : UInt8)).length = (layout.layers.map (layerBytes counts')).sum := by
    rw [List.length_replicate, Nat.add_sub_cancel_left]
    rfl
  have hwrite : writeLayers base.payload plans (readStageTail stages) 0
      (header ++ List.replicate (header.length + payloadBytes layout counts' - header.length) 0)
      (spanList counts' header.length layout.layers) placed =
      .ok (header ++ layers.flatten, layerReads plans 0 placed) := by
    apply writeLayers_eq h.intact hdecodes.sized htiled.1 hpad
    intro n layer row hlayer hrow
    rw [Nat.zero_add]
    have htiles := htiled.2 n layer row hlayer hrow
    have hn : n < layout.layers.length := by
      rw [← hlayers]
      exact (List.getElem?_eq_some_iff.mp hlayer).1
    exact ⟨h.owned hn htiles, htiles⟩
  obtain ⟨newest, hnewest⟩ : ∃ newest, plans.getLast? = some newest := by
    cases hlast : plans.getLast? with
    | some newest => exact ⟨newest, rfl⟩
    | none =>
        have hzero := h.length_eq
        rw [List.getLast?_eq_none_iff.mp hlast] at hzero
        exact absurd (List.eq_nil_of_length_eq_zero hzero.symm) hne
  refine ⟨layerReads plans 0 placed, ?_, ?_, ?_⟩
  · unfold Pages.composePageHistory
    rw [hnewest]
    simp only [bind_eq_ok, require_eq_ok, Prod.exists]
    refine ⟨basePlan, hbasePlan, placed, counts', result.sha256, ?_, header, hheader, _, hsize, _,
      hresultPlan, _, _, hwrite, (), ?_, ?_⟩
    · rw [hcounts]
      exact hplace
    · rw [← hpayload, hsha]
      exact fun _ => rfl
    · rw [← hpayload]
      rfl
  · refine layerReads_nodup layout.layers_nodup (fun ht => h.tail_name ht) ?_
    intro row hrow
    obtain ⟨n, hn⟩ := List.mem_iff_getElem?.mp hrow
    have hlt : n < layers.length := by
      rw [← htiled.1]
      exact (List.getElem?_eq_some_iff.mp hn).1
    exact (htiled.2 n _ row (List.getElem?_eq_getElem hlt) hn).owners
  · exact fun c hc => h.not_superseded htiled hc

/-- A nonempty chain that the fold accepts is composed, and reconstructed, to the same bytes; no
tail is read twice, and none that a later stage overwrites. -/
theorem composePageHistory_eq_fold {layout : PageLayout} {counts : List ℕ} {boundary : ℕ}
    {base result : Bytes} {stages : List DeltaStage} (hne : stages ≠ [])
    (h : foldPageDeltas layout counts boundary base stages = .ok result) :
    ∃ plans calls, planPageDeltas layout counts boundary stages = .ok plans ∧
      composePageHistory layout (verifyPageSnapshotBytes base) counts plans
          (readStageTail stages) = .ok (verifyPageSnapshotBytes result, calls) ∧
      reconstructPageHistory layout counts boundary base stages = .ok result ∧
      (calls.map TailRead.site).Nodup ∧ ∀ c ∈ calls, ¬ Superseded plans c.1 c.2 := by
  obtain ⟨plans, hchain⟩ := foldPageDeltas_eq_ok h
  obtain ⟨calls, hcompose, hnodup, hlive⟩ := hchain.composePageHistory hne rfl
  refine ⟨plans, calls, hchain.planPageDeltas, hcompose, ?_, hnodup, hlive⟩
  obtain ⟨basePlan, hbasePlan⟩ : ∃ basePlan,
      planPageSnapshot layout base counts none = .ok basePlan := by
    cases hchain with
    | nil => exact absurd rfl hne
    | cons _ hbase _ hextends _ => exact ⟨_, hbase ▸ hextends.basePlanned⟩
  obtain ⟨-, hcounts, hspans, htotal, hsum, -⟩ := planPageSnapshot_eq_ok hbasePlan
  unfold reconstructPageHistory PageHistoryReconstruction.ofSnapshot
  simp only [bind_eq_ok]
  refine ⟨_, ⟨basePlan, hbasePlan, rfl⟩, hchain.reconstructStages ?_ (Decodes.of_plan hbasePlan)⟩
  refine ⟨hcounts, rfl, rfl, rfl, ?_⟩
  have hpayload := (spanPayloads_sized (htotal.symm.trans hsum)).2
  rw [← hspans] at hpayload
  exact hpayload.symm

/-! ## Runs -/

theorem toOption_eq_some {ε α : Type} {x : Except ε α} {a : α} : x.toOption = some a ↔ x = .ok a := by
  cases x <;> simp [Except.toOption]

def tinyGroup (name : Str) (h : name ≠ "") : PageGroup where
  blockSize := 1
  layers := [⟨name, "uint8", [1], 1, ⟨h, by decide, by decide⟩, by decide⟩]
  reusePolicy := .full
  reuseWindowTokens := none
  complete := by simp
  window := rfl
  sorted := List.pairwise_singleton _ _

/-- Two groups of one layer, a byte a page. -/
def tinyLayout : PageLayout where
  groups := [tinyGroup "k" (by decide), tinyGroup "v" (by decide)]
  nonempty := by simp
  disjoint := by decide

def tinySnapshot (k v : Bytes) : Bytes :=
  ((encodePageSnapshot tinyLayout [k.length, v.length]
    ((AList.insert "k" k (AList.insert "v" v ∅) : Dictionary Str Bytes))).toOption).getD []

/-- The second group is kept as a whole, its tail is empty. -/
def tinyDelta : Bytes :=
  ((encodePageDelta tinyLayout (tinySnapshot [1] [2]) (tinySnapshot [1, 3] [2]) [1, 1] [2, 1] 1 2
    none .sha256 none).toOption).getD []

/-- The last page of the first group is replaced, and one more follows. -/
def tinyReplacement : Bytes :=
  ((encodePageDelta tinyLayout (tinySnapshot [1, 3] [2]) (tinySnapshot [1, 4, 5] [2]) [2, 1] [3, 1] 2 3
    none .sha256 none).toOption).getD []

def tinyStages : List DeltaStage := [⟨tinyDelta, [2, 1], 2⟩, ⟨tinyReplacement, [3, 1], 3⟩]

/-- The layers and the offsets of the tails of each stage. -/
theorem tinyStages_tails : (planPageDeltas tinyLayout [1, 1] 1 tinyStages).toOption.map (fun plans =>
    plans.map fun plan => plan.tails.map fun tail => (tail.layerName, tail.destinationByteOffset)) =
      some [[(("k" : Str), 1), (("v" : Str), 1)], [(("k" : Str), 1), (("v" : Str), 1)]] := by
  decide +kernel

/-- The second stage overwrites what the first one appends. -/
theorem composePageHistory_eq_fold_tiny :
    ∃ plans calls, planPageDeltas tinyLayout [1, 1] 1 tinyStages = .ok plans ∧
      composePageHistory tinyLayout (verifyPageSnapshotBytes (tinySnapshot [1] [2])) [1, 1] plans
          (readStageTail tinyStages) =
        .ok (verifyPageSnapshotBytes (tinySnapshot [1, 4, 5] [2]), calls) ∧
      reconstructPageHistory tinyLayout [1, 1] 1 (tinySnapshot [1] [2]) tinyStages =
        .ok (tinySnapshot [1, 4, 5] [2]) ∧
      (calls.map TailRead.site).Nodup ∧ (∀ c ∈ calls, ¬ Superseded plans c.1 c.2) ∧
      ∃ plan ∈ plans[0]?, ∃ tail ∈ plan.tails, tail.layerName = ("k" : Str) ∧ Superseded plans 0 tail := by
  have hfold : foldPageDeltas tinyLayout [1, 1] 1 (tinySnapshot [1] [2]) tinyStages =
      .ok (tinySnapshot [1, 4, 5] [2]) := by
    decide +kernel
  obtain ⟨plans, calls, hplans, hcompose, hreconstruct, hnodup, hlive⟩ :=
    composePageHistory_eq_fold (by simp [tinyStages]) hfold
  refine ⟨plans, calls, hplans, hcompose, hreconstruct, hnodup, hlive, ?_⟩
  have htails := tinyStages_tails
  rw [hplans] at htails
  obtain ⟨first, _, rfl, hfirst, hrest⟩ := List.map_eq_cons_iff.mp (Option.some.inj htails)
  obtain ⟨second, _, rfl, hsecond, -⟩ := List.map_eq_cons_iff.mp hrest
  obtain ⟨tail, _, htail, hname, -⟩ := List.map_eq_cons_iff.mp hfirst
  obtain ⟨later, _, hlater, hname', -⟩ := List.map_eq_cons_iff.mp hsecond
  obtain ⟨hlayer, hoffset⟩ := Prod.mk.inj hname
  obtain ⟨hlayer', hoffset'⟩ := Prod.mk.inj hname'
  refine ⟨first, rfl, tail, by rw [htail]; exact List.mem_cons_self, hlayer, 1, second, later, by omega, rfl,
    by rw [hlater]; exact List.mem_cons_self, hlayer'.trans hlayer.symm, ?_⟩
  rw [hoffset, hoffset']

/-- Folding no delta returns the base; composing none fails. -/
theorem composePageHistory_empty :
    encodePageSnapshot tinyLayout [1, 1]
        ((AList.insert "k" [1] (AList.insert "v" [2] ∅) : Dictionary Str Bytes)) =
      .ok (tinySnapshot [1] [2]) ∧
    foldPageDeltas tinyLayout [1, 1] 1 (tinySnapshot [1] [2]) [] = .ok (tinySnapshot [1] [2]) ∧
    planPageDeltas tinyLayout [1, 1] 1 [] = .ok [] ∧
    (composePageHistory tinyLayout (verifyPageSnapshotBytes (tinySnapshot [1] [2])) [1, 1] []
      (readStageTail [])).isOk = false := by
  refine ⟨?_, rfl, rfl, rfl⟩
  decide +kernel

end SparkCache.Pages
