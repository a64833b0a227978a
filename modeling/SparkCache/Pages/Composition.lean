import SparkCache.Pages.History

/-!
# A composed history is the folded history

Three ways to the newest snapshot of a chain of deltas: folding
`apply_page_delta`, the growing buffers of `_PageHistoryReconstruction`, and
`compose_page_history`. A chain that the fold accepts gives the same bytes on
all three, and the composition reads no tail twice and none in vain.
-/
namespace SparkCache.Pages

/-- One delta of a chain; its base is what the deltas before it lead to. -/
structure DeltaStage where
  encoded : Bytes
  resultBlockCounts : List ℕ
  resultBoundaryTokens : ℕ

/-- `apply_page_delta` over a chain, oldest first. -/
def foldPageDeltas (layout : PageLayout) :
    List ℕ → ℕ → Bytes → List DeltaStage → Except CodecError Bytes
  | _, _, snapshot, [] => .ok snapshot
  | counts, boundary, snapshot, stage :: rest => do
      let next ← applyPageDelta layout snapshot stage.encoded counts stage.resultBlockCounts
        boundary stage.resultBoundaryTokens
      foldPageDeltas layout stage.resultBlockCounts stage.resultBoundaryTokens next rest

/-- The plans of a chain, each made from the header of its delta. -/
def planPageDeltas (layout : PageLayout) :
    List ℕ → ℕ → List DeltaStage → Except CodecError (List PageDeltaPlan)
  | _, _, [] => .ok []
  | counts, boundary, stage :: rest => do
      let header ← pageDeltaHeaderPrefix stage.encoded
      let plan ← planPageDelta layout header counts stage.resultBlockCounts boundary
        stage.resultBoundaryTokens (some stage.encoded.length)
      let plans ← planPageDeltas layout stage.resultBlockCounts stage.resultBoundaryTokens rest
      return plan :: plans

/-- `apply` for every stage of a chain, then `finish`. -/
def reconstructStages (layout : PageLayout) :
    PageHistoryReconstruction → List DeltaStage → Except CodecError Bytes
  | r, [] => r.finish
  | r, stage :: rest => do
      let (outcome, next) := r.apply layout stage.encoded r.counts stage.resultBlockCounts r.boundary
        stage.resultBoundaryTokens
      outcome
      reconstructStages layout next rest

def reconstructPageHistory (layout : PageLayout) (counts : List ℕ) (boundary : ℕ) (base : Bytes)
    (stages : List DeltaStage) : Except CodecError Bytes := do
  let r ← PageHistoryReconstruction.ofSnapshot layout base counts boundary
  reconstructStages layout r stages

/-- The bytes that a stage holds for one of its tails. -/
def DeltaStage.tailBytes (stage : DeltaStage) (tail : PageDeltaTail) : Bytes :=
  slice stage.encoded tail.sourceStart tail.sourceEnd

/-- A `read_tail` that returns what the stages hold. -/
def readStageTail (stages : List DeltaStage) (stage : ℕ) (tail : PageDeltaTail) :
    Except CodecError Bytes :=
  match stages[stage]? with
  | some s => .ok (s.tailBytes tail)
  | none => .error .index

/-- A later stage overwrites the whole tail. -/
def Superseded (plans : List PageDeltaPlan) (stage : ℕ) (tail : PageDeltaTail) : Prop :=
  ∃ later plan later', stage < later ∧ plans[later]? = some plan ∧ later' ∈ plan.tails ∧
    later'.layerName = tail.layerName ∧ later'.destinationByteOffset ≤ tail.destinationByteOffset

/-! ## Chains -/

/-- A chain whose every stage can be applied, with its plans and its result. -/
inductive Chain (layout : PageLayout) : VerifiedPageSnapshot → List ℕ → ℕ → List DeltaStage →
    List PageDeltaPlan → VerifiedPageSnapshot → Prop
  | nil (base counts boundary) : Chain layout base counts boundary [] [] base
  | cons {base next result : VerifiedPageSnapshot} {counts : List ℕ} {boundary : ℕ}
      {stage : DeltaStage} {rest : List DeltaStage} {plan : PageDeltaPlan}
      {plans : List PageDeltaPlan} {basePlan : PageSnapshotPlan}
      (planned : planPageDelta layout stage.encoded counts stage.resultBlockCounts boundary
        stage.resultBoundaryTokens none = .ok plan)
      (baseCounts : basePlan.blockCounts = counts)
      (resultCounts : plan.resultBlockCounts = stage.resultBlockCounts)
      (extends_ : Extends layout base stage.encoded plan basePlan next)
      (rest_ : Chain layout next stage.resultBlockCounts stage.resultBoundaryTokens rest plans
        result) :
      Chain layout base counts boundary (stage :: rest) (plan :: plans) result

theorem foldPageDeltas_eq_ok {layout : PageLayout} {counts : List ℕ} {boundary : ℕ}
    {snapshot result : Bytes} {stages : List DeltaStage}
    (h : foldPageDeltas layout counts boundary snapshot stages = .ok result) :
    ∃ plans, Chain layout (verifyPageSnapshotBytes snapshot) counts boundary stages plans
      (verifyPageSnapshotBytes result) := by
  induction stages generalizing counts boundary snapshot with
  | nil =>
      cases h
      exact ⟨[], .nil _ _ _⟩
  | cons stage rest ih =>
      rw [foldPageDeltas] at h
      simp only [bind_eq_ok] at h
      obtain ⟨payload, happly, h⟩ := h
      unfold applyPageDelta at happly
      simp only [bind_eq_ok] at happly
      obtain ⟨next, hnext, heq⟩ := happly
      cases heq
      obtain ⟨plan, basePlan, hplan, hbase, hresult, hextends⟩ := applyVerifiedPageDelta_eq_ok hnext
      obtain ⟨plans, hchain⟩ := ih h
      have hverified : verifyPageSnapshotBytes next.payload = next := by
        rw [verifyPageSnapshotBytes, ← hextends.sha256]
      rw [hverified] at hchain
      exact ⟨plan :: plans, .cons hplan hbase hresult hextends hchain⟩

section Chain
variable {layout : PageLayout} {base result : VerifiedPageSnapshot} {counts : List ℕ} {boundary : ℕ}
  {stages : List DeltaStage} {plans : List PageDeltaPlan}

theorem Chain.planPageDeltas (h : Chain layout base counts boundary stages plans result) :
    planPageDeltas layout counts boundary stages = .ok plans := by
  induction h with
  | nil => rfl
  | cons hplan _ _ _ _ ih =>
      obtain ⟨header, hheader, hplanned⟩ := planPageDelta_headerPrefix hplan
      rw [Pages.planPageDeltas]
      simp only [bind_eq_ok]
      exact ⟨header, hheader, _, hplanned, _, ih, rfl⟩

theorem Chain.length_eq (h : Chain layout base counts boundary stages plans result) :
    plans.length = stages.length := by
  induction h with
  | nil => rfl
  | cons _ _ _ _ _ ih => rw [List.length_cons, List.length_cons, ih]

/-- Every stage of a chain is applied to some snapshot. -/
theorem Chain.stage (h : Chain layout base counts boundary stages plans result) {j : ℕ}
    {stage : DeltaStage} {plan : PageDeltaPlan} (hs : stages[j]? = some stage)
    (hp : plans[j]? = some plan) :
    ∃ before basePlan after, Extends layout before stage.encoded plan basePlan after := by
  induction h generalizing j with
  | nil => cases hs
  | cons _ _ _ hextends _ ih =>
      cases j with
      | zero =>
          cases hs
          cases hp
          exact ⟨_, _, _, hextends⟩
      | succ j => exact ih hs hp

end Chain

/-! ## Decoded layers -/

/-- The layers that a snapshot decodes to. -/
def Decodes (layout : PageLayout) (payload : Bytes) (counts : List ℕ) (layers : List Bytes) : Prop :=
  ∃ plan, planPageSnapshot layout payload counts none = .ok plan ∧
    spanPayloads payload plan.spans = layers

section Decodes
variable {layout : PageLayout} {payload : Bytes} {counts : List ℕ} {layers : List Bytes}

theorem Decodes.sized (h : Decodes layout payload counts layers) :
    Sized counts layout.layers layers := by
  obtain ⟨plan, hplan, rfl⟩ := h
  obtain ⟨-, -, hspans, htotal, hsum, -⟩ := planPageSnapshot_eq_ok hplan
  rw [hspans]
  exact (spanPayloads_sized (htotal.symm.trans hsum)).1

theorem Decodes.of_plan {plan : PageSnapshotPlan}
    (h : planPageSnapshot layout payload counts none = .ok plan) :
    Decodes layout payload counts (spanPayloads payload plan.spans) :=
  ⟨plan, h, rfl⟩

theorem Decodes.eq {plan : PageSnapshotPlan} (h : Decodes layout payload counts layers)
    (hplan : planPageSnapshot layout payload counts none = .ok plan) :
    spanPayloads payload plan.spans = layers := by
  obtain ⟨plan', hplan', hlayers⟩ := h
  rw [hplan'] at hplan
  cases hplan
  exact hlayers

/-- A header with payloads of its sizes decodes to them. -/
theorem Decodes.encoded {header : Bytes} (h : encodePageSnapshotHeader layout counts = .ok header)
    (hl : Sized counts layout.layers layers) :
    Decodes layout (header ++ layers.flatten) counts layers := by
  have hlength : layers.flatten.length = payloadBytes layout counts := hl.length_flatten
  refine ⟨_, planPageSnapshot_encoded h layers.flatten ?_ (Nat.le_of_eq hlength), ?_⟩
  · rw [Option.getD_none, List.length_append, hlength]
  · have hspans := hl.spanPayloads header []
    rw [List.append_nil] at hspans
    exact hspans

/-- A delta extends the layers of its base. -/
theorem Extends.decodes {base next : VerifiedPageSnapshot} {encoded : Bytes} {plan : PageDeltaPlan}
    {basePlan : PageSnapshotPlan} (h : Extends layout base encoded plan basePlan next)
    (hl : Decodes layout base.payload basePlan.blockCounts layers) :
    Decodes layout next.payload plan.resultBlockCounts (extendLayers encoded plan.tails layers) := by
  obtain ⟨header, hheader, hpayload⟩ := h.payload
  rw [hpayload, hl.eq h.basePlanned]
  exact Decodes.encoded hheader (h.planned.sized hl.sized)

end Decodes

/-! ## Reconstruction -/

theorem assign_append {before middle after data : Bytes} {start stop : ℕ}
    (hstart : before.length = start) (hstop : start + middle.length = stop)
    (h : data.length = middle.length) :
    assign (before ++ middle ++ after) start stop data = .ok (before ++ data ++ after) := by
  have hslice : slice (before ++ middle ++ after) start stop = middle := by
    rw [slice, List.append_assoc, List.drop_left' hstart, List.take_left' (by omega)]
  have htake : (before ++ middle ++ after).take start = before := by
    rw [List.append_assoc, List.take_left' hstart]
  have hdrop : (before ++ middle ++ after).drop stop = after := by
    rw [List.drop_left']
    rw [List.length_append]
    omega
  rw [assign, hslice, if_pos h.symm, htake, hdrop]

theorem slice_append_slice {data : Bytes} {start middle stop : ℕ} (h₁ : start ≤ middle)
    (h₂ : middle ≤ stop) : slice data start middle ++ slice data middle stop =
      slice data start stop := by
  have hsum : stop - start = (middle - start) + (stop - middle) := by omega
  rw [slice, slice, slice, hsum, List.take_add, List.drop_drop, Nat.add_sub_cancel' h₁]

theorem PageHistoryReconstruction.overwrite_eq {encoded : Bytes} {base result : List ℕ}
    {layers : List (ℕ × PageLayer)} {tails : List PageDeltaTail} {buffers : List Bytes}
    (hfits : List.Forall₂ (Fits base result encoded.length) layers tails)
    (hsized : Sized base layers buffers) :
    overwrite encoded tails buffers = .ok (extendLayers encoded tails buffers) := by
  induction hfits generalizing buffers with
  | nil =>
      cases hsized
      rfl
  | @cons p tail ps tails hfit _ ih =>
      obtain ⟨buffer, more, hbuffer, hmore, rfl⟩ := List.forall₂_cons_left_iff.mp hsized
      have hsize := hfit.size
      have hgrows := hfit.grows
      have hkept := hfit.kept
      have hbounded := hfit.bounded
      have hordered := hfit.ordered
      have hassign : assign (buffer.take tail.destinationByteOffset ++
          buffer.drop tail.destinationByteOffset ++ []) tail.destinationByteOffset buffer.length
          (slice encoded tail.sourceStart
            (tail.sourceStart + (buffer.length - tail.destinationByteOffset))) =
          .ok (buffer.take tail.destinationByteOffset ++ slice encoded tail.sourceStart
            (tail.sourceStart + (buffer.length - tail.destinationByteOffset)) ++ []) := by
        apply assign_append
        · rw [List.length_take]
          omega
        · rw [List.length_drop]
          omega
        · rw [slice_length (by omega), List.length_drop]
          omega
      rw [List.append_nil, List.take_append_drop, List.append_nil] at hassign
      rw [overwrite]
      simp only [bind_eq_ok]
      refine ⟨_, hassign, _, ih hmore, ?_⟩
      unfold extendLayers
      rw [List.append_assoc, slice_append_slice (by omega) (by omega), List.zipWith_cons_cons]
      rfl

theorem pageSnapshotEncodedSize_eq {layout : PageLayout} {counts : List ℕ} {header : Bytes}
    (h : encodePageSnapshotHeader layout counts = .ok header) :
    pageSnapshotEncodedSize layout counts = .ok (header.length + payloadBytes layout counts) := by
  unfold pageSnapshotEncodedSize
  rw [h]
  rfl

/-- The buffers hold a snapshot. -/
structure Holds (r : PageHistoryReconstruction) (snapshot : VerifiedPageSnapshot)
    (counts : List ℕ) (boundary : ℕ) : Prop where
  counts : r.counts = counts
  boundary : r.boundary = boundary
  sha256 : r.sha256 = snapshot.sha256
  valid : r.valid = true
  payload : r.header ++ r.layers.flatten = snapshot.payload

theorem Holds.applyStage {layout : PageLayout} {r : PageHistoryReconstruction}
    {base next : VerifiedPageSnapshot} {counts : List ℕ} {boundary : ℕ} {stage : DeltaStage}
    {plan : PageDeltaPlan} {basePlan : PageSnapshotPlan} (h : Holds r base counts boundary)
    (hl : Decodes layout base.payload counts r.layers)
    (hplan : planPageDelta layout stage.encoded counts stage.resultBlockCounts boundary
      stage.resultBoundaryTokens none = .ok plan)
    (hbase : basePlan.blockCounts = counts)
    (hresult : plan.resultBlockCounts = stage.resultBlockCounts)
    (hextends : Extends layout base stage.encoded plan basePlan next) :
    ∃ r', r.applyStage layout stage.encoded r.counts stage.resultBlockCounts r.boundary
        stage.resultBoundaryTokens = .ok r' ∧
      Holds r' next stage.resultBlockCounts stage.resultBoundaryTokens ∧
      Decodes layout next.payload stage.resultBlockCounts r'.layers := by
  obtain ⟨header, hheader, hpayload⟩ := hextends.payload
  have hplanned := hextends.planned
  rw [hbase] at hplanned
  have hlayers := hl.eq (hbase ▸ hextends.basePlanned)
  rw [hlayers] at hpayload
  have hsized := hplanned.sized hl.sized
  have hdecodes := hextends.decodes (hbase.symm ▸ hl)
  rw [hresult] at hdecodes
  have hsum : ((extendLayers stage.encoded plan.tails r.layers).map List.length).sum =
      payloadBytes layout plan.resultBlockCounts := by
    rw [← List.length_flatten]
    exact hsized.length_flatten
  refine ⟨⟨plan.resultBlockCounts, stage.resultBoundaryTokens, next.sha256, true, header,
    extendLayers stage.encoded plan.tails r.layers⟩, ?_, ?_, hdecodes⟩
  · unfold PageHistoryReconstruction.applyStage
    simp only [bind_eq_ok, require_eq_ok]
    rw [h.counts, h.boundary]
    refine ⟨(), h.valid, (), ⟨trivial, trivial⟩, plan, hplan, (), hextends.baseDigest.trans h.sha256.symm,
      (), hextends.signed, _, PageHistoryReconstruction.overwrite_eq hplanned.tails hl.sized,
      header, hheader, _, pageSnapshotEncodedSize_eq hheader, (), ?_, (), ?_, ?_⟩
    · rw [hsum]
    · rw [← hpayload, ← hextends.sha256, hextends.resultDigest]
    · rw [← hpayload, ← hextends.sha256]
      rfl
  · exact ⟨hresult, rfl, rfl, rfl, hpayload.symm⟩

theorem Chain.reconstructStages {layout : PageLayout} {base result : VerifiedPageSnapshot}
    {counts : List ℕ} {boundary : ℕ} {stages : List DeltaStage} {plans : List PageDeltaPlan}
    (h : Chain layout base counts boundary stages plans result) {r : PageHistoryReconstruction}
    (hr : Holds r base counts boundary) (hl : Decodes layout base.payload counts r.layers) :
    reconstructStages layout r stages = .ok result.payload := by
  induction h generalizing r with
  | nil =>
      rw [Pages.reconstructStages, PageHistoryReconstruction.finish]
      simp only [bind_eq_ok, require_eq_ok]
      exact ⟨(), hr.valid, congrArg Except.ok hr.payload⟩
  | cons hplan hbase hresult hextends _ ih =>
      obtain ⟨r', happly, hr', hl'⟩ := hr.applyStage hl hplan hbase hresult hextends
      rw [Pages.reconstructStages, PageHistoryReconstruction.apply, happly]
      exact ih hr' hl'

/-! ## Ranges -/

section Place
variable (plans : List PageDeltaPlan) (stages : List DeltaStage) (base : Bytes)

/-- The tail of a stage for the destination layer of an index. -/
def tailAt? (stage destination : ℕ) : Option PageDeltaTail :=
  plans[stage]?.bind fun plan => plan.tails[destination]?

/-- Where a stage cuts a layer. -/
def cutAt (destination stage : ℕ) : ℕ :=
  ((tailAt? plans stage destination).map PageDeltaTail.destinationByteOffset).getD 0

/-- What the owner of a range holds for a layer: the base snapshot, or a stage's tail. -/
def ownerBytes (destination : ℕ) : Option ℕ → Bytes
  | none => base
  | some stage =>
      match stages[stage]?, tailAt? plans stage destination with
      | some s, some tail => s.tailBytes tail
      | _, _ => []

/-- The ranges of every layer tile it. -/
def Tiled (k : ℕ) (layers : List Bytes) (ranges : List (List Range)) : Prop :=
  ranges.length = layers.length ∧ ∀ (i : ℕ) (layer : Bytes) (row : List Range), layers[i]? = some layer → ranges[i]? = some row →
    Patchwork.Tiles (ownerBytes plans stages base i) (cutAt plans i) k layer row

end Place

/-- The ranges of a layer after a stage that fits. -/
def superseded (stage : ℕ) (tail : PageDeltaTail) (ranges : List Range) : List Range :=
  Patchwork.edited stage tail.destinationByteOffset (tail.sourceEnd - tail.sourceStart) ranges

theorem supersedeLayers_eq {stage : ℕ} {tails : List PageDeltaTail} {ranges : List (List Range)}
    (h : ∀ (i : ℕ) (tail : PageDeltaTail) (row : List Range), tails[i]? = some tail →
      ranges[i]? = some row → Patchwork.lastStop (Patchwork.truncate tail.destinationByteOffset row) =
        tail.destinationByteOffset) :
    supersedeLayers stage tails ranges = .ok (List.zipWith (superseded stage) tails ranges) := by
  induction tails generalizing ranges with
  | nil => rfl
  | cons tail tails ih =>
      cases ranges with
      | nil => rfl
      | cons row ranges =>
          have hrow : supersede stage tail row = .ok (superseded stage tail row) := by
            unfold supersede
            simp only [bind_eq_ok, require_eq_ok]
            exact ⟨(), h 0 tail row rfl rfl, rfl⟩
          have hrest := @ih ranges fun i tail' row' ht hr => h (i + 1) tail' row' ht hr
          rw [supersedeLayers, hrow, hrest]
          rfl

theorem Sized.getElem? {counts : List ℕ} {ps : List (ℕ × PageLayer)} {layers : List Bytes}
    (h : Sized counts ps layers) {i : ℕ} {p : ℕ × PageLayer} {layer : Bytes}
    (hp : ps[i]? = some p) (hl : layers[i]? = some layer) : layer.length = layerBytes counts p := by
  induction h generalizing i with
  | nil => cases hp
  | cons hx _ ih =>
      cases i with
      | zero =>
          cases hp
          cases hl
          exact hx
      | succ i => exact ih hp hl

theorem Planned.getElem? {layout : PageLayout} {total : ℕ} {base result : List ℕ}
    {plan : PageDeltaPlan} (h : Planned layout total base result plan) {i : ℕ} {tail : PageDeltaTail}
    (ht : plan.tails[i]? = some tail) :
    ∃ p, layout.layers[i]? = some p ∧ Fits base result total p tail := by
  have htails := h.tails
  generalize plan.tails = tails at htails ht
  generalize layout.layers = ps at htails
  induction htails generalizing i with
  | nil => cases ht
  | @cons p _ _ _ hfit _ ih =>
      cases i with
      | zero =>
          cases ht
          exact ⟨p, rfl, hfit⟩
      | succ i => exact ih ht

/-- One stage keeps the layers tiled. -/
theorem Tiled.stage {layout : PageLayout} {plans : List PageDeltaPlan} {stages : List DeltaStage}
    {source : Bytes} {k : ℕ} {layers : List Bytes} {ranges : List (List Range)}
    (h : Tiled plans stages source k layers ranges) {stage : DeltaStage} {plan : PageDeltaPlan}
    {base result : List ℕ} (hs : stages[k]? = some stage) (hp : plans[k]? = some plan)
    (hplanned : Planned layout stage.encoded.length base result plan)
    (hl : Sized base layout.layers layers) :
    supersedeLayers k plan.tails ranges =
        .ok (List.zipWith (superseded k) plan.tails ranges) ∧
      Tiled plans stages source (k + 1) (extendLayers stage.encoded plan.tails layers)
        (List.zipWith (superseded k) plan.tails ranges) := by
  have hcut : ∀ {i : ℕ} {tail : PageDeltaTail}, plan.tails[i]? = some tail →
      cutAt plans i k = tail.destinationByteOffset := by
    intro i tail ht
    simp [cutAt, tailAt?, hp, ht]
  have hread : ∀ {i : ℕ} {tail : PageDeltaTail}, plan.tails[i]? = some tail →
      ownerBytes plans stages source i (some k) = stage.tailBytes tail := by
    intro i tail ht
    simp [ownerBytes, tailAt?, hp, ht, hs]
  have hle : ∀ {i : ℕ} {tail : PageDeltaTail} {layer : Bytes}, plan.tails[i]? = some tail → layers[i]? = some layer →
      tail.destinationByteOffset ≤ layer.length := by
    intro i tail layer ht hlayer
    obtain ⟨p, hp', hfit⟩ := hplanned.getElem? ht
    rw [hl.getElem? hp' hlayer]
    exact hfit.kept
  have hlength := hplanned.tails.length_eq.symm.trans hl.length_eq
  constructor
  · apply supersedeLayers_eq
    intro i tail row ht hrow
    have hi : i < layers.length := by
      rw [← h.1]
      exact (List.getElem?_eq_some_iff.mp hrow).1
    have hlayer := List.getElem?_eq_getElem hi
    exact (h.2 i _ row hlayer hrow).lastStop (hle ht hlayer)
  · refine ⟨?_, ?_⟩
    · unfold extendLayers
      rw [List.length_zipWith, List.length_zipWith, h.1]
    · intro i layer' row' hlayer' hrow'
      unfold extendLayers at hlayer'
      obtain ⟨tail, layer, ht, hlayer, rfl⟩ := List.getElem?_zipWith_eq_some.mp hlayer'
      obtain ⟨tail', row, ht', hrow, rfl⟩ := List.getElem?_zipWith_eq_some.mp hrow'
      rw [ht] at ht'
      cases ht'
      obtain ⟨p, -, hfit⟩ := hplanned.getElem? ht
      have hedit := (h.2 i layer row hlayer hrow).edit (by rw [hcut ht]; exact hle ht hlayer)
      rw [hcut ht, hread ht] at hedit
      have hsize : (stage.tailBytes tail).length = tail.sourceEnd - tail.sourceStart :=
        slice_length hfit.bounded
      rw [hsize] at hedit
      exact hedit

/-- Placing the rest of a chain. -/
theorem Chain.placeStages {layout : PageLayout} {base result : VerifiedPageSnapshot}
    {counts : List ℕ} {boundary : ℕ} {rest : List DeltaStage} {plans : List PageDeltaPlan}
    (h : Chain layout base counts boundary rest plans result)
    {allPlans before : List PageDeltaPlan} {stages done : List DeltaStage} {source : Bytes}
    {layers : List Bytes} {ranges : List (List Range)} (hstages : stages = done ++ rest)
    (hplans : allPlans = before ++ plans) (hk : before.length = done.length)
    (hl : Decodes layout base.payload counts layers)
    (ht : Tiled allPlans stages source done.length layers ranges) :
    ∃ counts' layers' placed,
      Pages.placeStages done.length plans counts base.sha256 ranges =
          .ok (placed, counts', result.sha256) ∧
        Tiled allPlans stages source stages.length layers' placed ∧
        Decodes layout result.payload counts' layers' ∧
        (rest = [] ∧ counts' = counts ∨
          ∃ header, encodePageSnapshotHeader layout counts' = .ok header ∧
            result.payload = header ++ layers'.flatten) := by
  induction h generalizing before done layers ranges with
  | nil base counts boundary =>
      rw [List.append_nil] at hstages
      subst hstages
      exact ⟨counts, layers, ranges, rfl, ht, hl, .inl ⟨rfl, rfl⟩⟩
  | @cons base next result counts boundary stage rest plan plans basePlan hplan hbase hresult
      hextends hrest ih =>
      have hplanned := hextends.planned
      rw [hbase] at hplanned
      have hs : stages[done.length]? = some stage := by
        rw [hstages, List.getElem?_append_right (Nat.le_refl _), Nat.sub_self]
        rfl
      have hp : allPlans[done.length]? = some plan := by
        rw [hplans, ← hk, List.getElem?_append_right (Nat.le_refl _), Nat.sub_self]
        rfl
      obtain ⟨hsupersede, htiled⟩ := ht.stage hs hp hplanned hl.sized
      have hdecodes := hextends.decodes (hbase.symm ▸ hl)
      rw [hresult] at hdecodes
      have hdone : (done ++ [stage]).length = done.length + 1 := by simp
      obtain ⟨counts', layers', placed, hplace, htiled', hdecodes', hend⟩ :=
        @ih (before ++ [plan]) (done ++ [stage]) _ _ (by simp [hstages]) (by simp [hplans])
          (by simp [hk]) hdecodes (hdone.symm ▸ htiled)
      refine ⟨counts', layers', placed, ?_, htiled', hdecodes', .inr ?_⟩
      · rw [Pages.placeStages]
        simp only [bind_eq_ok, require_eq_ok]
        refine ⟨(), ⟨hplanned.baseCounts, hextends.baseDigest, ?_⟩, _, hsupersede, ?_⟩
        · exact hplanned.tails.length_eq.symm.trans (hl.sized.length_eq.trans ht.1.symm)
        · rw [hresult, hextends.resultDigest, ← hdone]
          exact hplace
      · rcases hend with ⟨hnil, hcounts⟩ | hend
        · subst hnil
          cases hrest
          obtain ⟨header, hheader, hpayload⟩ := hextends.payload
          rw [hl.eq (hbase ▸ hextends.basePlanned)] at hpayload
          rw [hresult] at hheader
          refine ⟨header, hcounts ▸ hheader, ?_⟩
          rw [hpayload]
          have hsame : Decodes layout next.payload stage.resultBlockCounts layers' :=
            hcounts ▸ hdecodes'
          obtain ⟨plan', hplan', hlayers'⟩ := hsame
          rw [← hlayers', hdecodes.eq hplan']
        · exact hend

end SparkCache.Pages
