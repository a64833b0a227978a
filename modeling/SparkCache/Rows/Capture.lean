import SparkCache.Rows.Codec
import SparkCache.Store.Commit

/-!
# Captured rows

A worker copies the rows of the tokens that its rank owns out of the registered tensors, one byte
string a layer, and cuts the chunks of the store out of these strings.
-/
namespace SparkCache.Rows
open Store
open Pages (slice bind_eq_ok)

/-- The registered tensors as rows. The rows of a layer are as wide as its plan says. -/
structure LayerTensors (layers : LayerPlans) where
  rows : String → List Bytes
  wide : ∀ plan ∈ layers.plans, ∀ row ∈ rows plan.name, row.length = plan.bytesPerToken

/-- A worker of one rank. Its identity names the rank. -/
structure Worker where
  layers : LayerPlans
  blockSize : ℕ
  identity : CacheIdentity
  rank : ℕ
  shard : identity.dcpShardRank = rank

/-- What a store or a load reads of a `_ReqPlan`. -/
structure ReqPlan where
  digest : Digest
  spanTokens : ℕ
  blockIds : List ℕ
  tokenIds : List ℤ
  baseContextDigest : Option Digest
  baseSpanTokens : ℕ

/-- `_StoreSnapshot` -/
structure StoreSnapshot where
  plan : ReqPlan
  positions : List ℕ
  layerBytes : List (String × Bytes)
  logicalStart : ℕ

/-- `rows[slots]`, one row after another. -/
def gatherRows (rows : List Bytes) : List ℕ → Except StoreError Bytes
  | [] => .ok []
  | slot :: rest => do
      let row ← expect rows[slot]? (.runtime s!"index {slot} is out of bounds")
      let gathered ← gatherRows rows rest
      return row ++ gathered

def gatherLayers (rows : String → List Bytes) (slots : List ℕ) :
    List LayerPlan → Except StoreError (List (String × Bytes))
  | [] => .ok []
  | plan :: rest => do
      let gathered ← gatherRows (rows plan.name) slots
      let layers ← gatherLayers rows slots rest
      return (plan.name, gathered) :: layers

/-- `_snapshot_store` -/
def Worker.snapshotStore (w : Worker) (tensors : LayerTensors w.layers) (plan : ReqPlan) :
    Except StoreError StoreSnapshot := do
  let logicalStart := if plan.baseContextDigest.isSome then plan.baseSpanTokens else 0
  require (logicalStart % w.identity.chunkTokens = 0)
    (.runtime "tail publication base is not chunk-aligned")
  let owned ← ownedPositions plan.spanTokens w.identity.dcpDegree w.rank
  let positions := owned.filter (logicalStart ≤ ·)
  let slots ← localSlotsForPositions positions plan.blockIds w.blockSize w.identity.dcpDegree
  let layerBytes ← gatherLayers tensors.rows slots w.layers.plans
  return ⟨plan, positions, layerBytes, logicalStart⟩

/-! ## Chunks -/

/-- The rows of a chunk in a layer of one record kind. -/
def StoreSnapshot.layerRows (s : StoreSnapshot) (plans : List LayerPlan) (kind : StateRecord)
    (rows index : ℕ) (name : String) : Option Bytes :=
  (layersOf plans kind).find? (fun plan => plan.name = name) |>.bind fun plan =>
    (s.layerBytes.lookup name).map fun full =>
      slice full (index * rows * plan.bytesPerToken) ((index + 1) * rows * plan.bytesPerToken)

def StoreSnapshot.records (s : StoreSnapshot) (plans : List LayerPlan) (rows index : ℕ) :
    List StateRecord → Except StoreError (List (StateRecord × Bytes))
  | [] => .ok []
  | kind :: rest => do
      let payload ← packRecord plans kind (s.layerRows plans kind rows index) rows
      let others ← s.records plans rows index rest
      return (kind, payload) :: others

/-- `_SnapshotChunks.__getitem__` -/
def StoreSnapshot.chunk (s : StoreSnapshot) (layers : LayerPlans) (chunkTokens rows index : ℕ) :
    Except StoreError ContextChunk := do
  let positions ← packPositions ((s.positions.drop (index * rows)).take ((index + 1) * rows - index * rows))
  let records ← s.records layers.plans rows index layers.recordKinds
  ContextChunk.of ↑(s.logicalStart + index * chunkTokens) ↑(s.logicalStart + (index + 1) * chunkTokens)
    ((.logicalPositions, positions) :: records)

/-- The chunks that a publication leaves to its base. -/
def chunksBefore (logicalStart chunkTokens : ℕ) : Except StoreError ℕ :=
  if logicalStart = 0 then .ok 0 else chunkCount logicalStart chunkTokens

/-- `_SnapshotChunks` -/
def snapshotChunks (s : StoreSnapshot) (layers : LayerPlans) (dcpDegree chunkTokens : ℕ) :
    Except StoreError ChunkSequence := do
  require (0 < chunkTokens ∧ chunkTokens % dcpDegree = 0)
    (.value s!"chunk_tokens {chunkTokens} is not divisible by dcp_degree {dcpDegree}")
  let total ← chunkCount s.plan.spanTokens chunkTokens
  let before ← chunksBefore s.logicalStart chunkTokens
  return ⟨total - before, s.chunk layers chunkTokens (chunkTokens / dcpDegree)⟩

/-! ## Gathered rows -/

/-- The row of a layer at a slot. -/
def rowAtSlot (rows : String → List Bytes) (name : String) (slot : ℕ) : Bytes :=
  (rows name).getD slot []

theorem gatherRows_eq_ok {rows : List Bytes} {slots : List ℕ} :
    ∀ {gathered : Bytes}, gatherRows rows slots = .ok gathered ↔
      (∀ slot ∈ slots, slot < rows.length) ∧ gathered = slots.flatMap fun slot => rows.getD slot [] := by
  induction slots with
  | nil => simp [gatherRows, eq_comm]
  | cons slot rest ih =>
      intro gathered
      simp only [gatherRows, bind_eq_ok, expect_eq_ok, ih, pure, Except.pure, Except.ok.injEq,
        List.forall_mem_cons, List.flatMap_cons, List.getD_eq_getElem?_getD]
      constructor
      · rintro ⟨row, hrow, _, ⟨hrest, rfl⟩, rfl⟩
        rw [hrow]
        exact ⟨⟨(List.getElem?_eq_some_iff.mp hrow).1, hrest⟩, rfl⟩
      · rintro ⟨⟨hslot, hrest⟩, rfl⟩
        refine ⟨rows[slot], List.getElem?_eq_getElem hslot, _, ⟨hrest, rfl⟩, ?_⟩
        rw [List.getElem?_eq_getElem hslot, Option.getD_some]

theorem gatherLayers_eq_ok {rows : String → List Bytes} {slots : List ℕ} {plans : List LayerPlan} :
    ∀ {layerBytes : List (String × Bytes)}, gatherLayers rows slots plans = .ok layerBytes ↔
      (∀ plan ∈ plans, ∀ slot ∈ slots, slot < (rows plan.name).length) ∧
      layerBytes = plans.map fun plan => (plan.name, slots.flatMap (rowAtSlot rows plan.name)) := by
  induction plans with
  | nil => simp [gatherLayers, eq_comm]
  | cons plan rest ih =>
      intro layerBytes
      simp only [gatherLayers, bind_eq_ok, gatherRows_eq_ok, ih, pure, Except.pure, Except.ok.injEq,
        List.forall_mem_cons, List.map_cons]
      constructor
      · rintro ⟨_, ⟨hfirst, rfl⟩, _, ⟨hrest, rfl⟩, rfl⟩
        exact ⟨⟨hfirst, hrest⟩, rfl⟩
      · rintro ⟨⟨hfirst, hrest⟩, rfl⟩
        exact ⟨_, ⟨hfirst, rfl⟩, _, ⟨hrest, rfl⟩, rfl⟩

/-! ## Ordinals -/

/-- The positions of consecutive ordinals of a rank. -/
def positionsOf (dcpDegree dcpRank start count : ℕ) : List ℕ :=
  (List.range' start count).map fun ordinal => ordinal * dcpDegree + dcpRank

theorem positionsOf_eq (dcpDegree dcpRank start count : ℕ) :
    positionsOf dcpDegree dcpRank start count =
      List.range' (start * dcpDegree + dcpRank) count dcpDegree := by
  unfold positionsOf
  induction count generalizing start with
  | zero => rfl
  | succ count ih =>
      rw [List.range'_succ, List.range'_succ, List.map_cons, ih (start + 1)]
      congr 2
      ring

theorem positionsOf_append (dcpDegree dcpRank start m n : ℕ) :
    positionsOf dcpDegree dcpRank start (m + n) =
      positionsOf dcpDegree dcpRank start m ++ positionsOf dcpDegree dcpRank (start + m) n := by
  rw [positionsOf, positionsOf, positionsOf, ← List.map_append, List.range'_append_1]

theorem mem_positionsOf {dcpDegree dcpRank start count p : ℕ} :
    p ∈ positionsOf dcpDegree dcpRank start count ↔
      ∃ ordinal, start ≤ ordinal ∧ ordinal < start + count ∧ ordinal * dcpDegree + dcpRank = p := by
  simp [positionsOf, List.mem_range'_1, and_assoc]

@[simp] theorem positionsOf_length (dcpDegree dcpRank start count : ℕ) :
    (positionsOf dcpDegree dcpRank start count).length = count := by
  simp [positionsOf]

/-- The positions of a chunk among consecutive positions. -/
theorem positionsOf_window {dcpDegree dcpRank start count a b : ℕ} (hab : a ≤ b) (hb : b ≤ count) :
    ((positionsOf dcpDegree dcpRank start count).drop a).take (b - a) =
      positionsOf dcpDegree dcpRank (start + a) (b - a) := by
  obtain ⟨m, rfl⟩ := Nat.exists_eq_add_of_le hab
  obtain ⟨n, rfl⟩ := Nat.exists_eq_add_of_le hb
  rw [Nat.add_sub_cancel_left, Nat.add_assoc, positionsOf_append, List.drop_left' (positionsOf_length ..),
    positionsOf_append, List.take_left' (positionsOf_length ..)]

theorem ordinal_of_position {dcpDegree dcpRank ordinal : ℕ} (hrank : dcpRank < dcpDegree) :
    (ordinal * dcpDegree + dcpRank) / dcpDegree = ordinal := by
  rw [Nat.mul_comm, Nat.mul_add_div (Nat.zero_lt_of_lt hrank), Nat.div_eq_of_lt hrank, Nat.add_zero]

/-- The owned positions from one on are the ordinals from one on. -/
theorem positionsOf_filter {dcpDegree dcpRank first total : ℕ} (hrank : dcpRank < dcpDegree)
    (hfirst : first ≤ total) :
    (positionsOf dcpDegree dcpRank 0 total).filter (fun p => first * dcpDegree ≤ p) =
      positionsOf dcpDegree dcpRank first (total - first) := by
  obtain ⟨rest, rfl⟩ := Nat.exists_eq_add_of_le hfirst
  have hbelow : ∀ p ∈ positionsOf dcpDegree dcpRank 0 first, ¬first * dcpDegree ≤ p := by
    intro p hp
    obtain ⟨ordinal, -, hlt, rfl⟩ := mem_positionsOf.mp hp
    have hnext := Nat.mul_le_mul_right dcpDegree (Nat.succ_le_of_lt (show ordinal < first by omega))
    rw [Nat.succ_mul] at hnext
    omega
  have habove : ∀ p ∈ positionsOf dcpDegree dcpRank first rest, first * dcpDegree ≤ p := by
    intro p hp
    obtain ⟨ordinal, hle, -, rfl⟩ := mem_positionsOf.mp hp
    exact (Nat.mul_le_mul_right dcpDegree hle).trans (Nat.le_add_right _ _)
  rw [positionsOf_append, List.filter_append, Nat.zero_add, Nat.add_sub_cancel_left,
    List.filter_eq_nil_iff.mpr (by simpa using hbelow), List.filter_eq_self.mpr (by simpa using habove),
    List.nil_append]

/-! ## Layers by name -/

theorem LayerPlans.nodup (layers : LayerPlans) : (layers.plans.map LayerPlan.name).Nodup := by
  refine layers.sorted.imp ?_
  rintro a b h rfl
  exact String.lt_irrefl a h

theorem find?_name {plans : List LayerPlan} (h : (plans.map LayerPlan.name).Nodup) {plan : LayerPlan}
    (hplan : plan ∈ plans) : plans.find? (fun p => p.name = plan.name) = some plan := by
  induction plans with
  | nil => cases hplan
  | cons first rest ih =>
      rw [List.map_cons, List.nodup_cons] at h
      obtain rfl | hrest := List.mem_cons.mp hplan
      · exact List.find?_cons_of_pos (by simp)
      · have hne : first.name ≠ plan.name := fun heq => h.1 (heq ▸ List.mem_map_of_mem hrest)
        rw [List.find?_cons_of_neg (by simpa using hne)]
        exact ih h.2 hrest

theorem lookup_name {plans : List LayerPlan} (h : (plans.map LayerPlan.name).Nodup)
    {β : Type*} {payload : LayerPlan → β} {plan : LayerPlan} (hplan : plan ∈ plans) :
    (plans.map fun p => (p.name, payload p)).lookup plan.name = some (payload plan) := by
  induction plans with
  | nil => cases hplan
  | cons first rest ih =>
      rw [List.map_cons, List.nodup_cons] at h
      rw [List.map_cons]
      obtain rfl | hrest := List.mem_cons.mp hplan
      · exact List.lookup_cons_self
      · have hne : plan.name ≠ first.name := fun heq => h.1 (heq ▸ List.mem_map_of_mem hrest)
        rw [List.lookup_cons, beq_eq_false_iff_ne.mpr hne]
        exact ih h.2 hrest

theorem layersOf_nodup {plans : List LayerPlan} (h : (plans.map LayerPlan.name).Nodup) (kind : StateRecord) :
    ((layersOf plans kind).map LayerPlan.name).Nodup :=
  h.sublist (List.filter_sublist.map _)

theorem LayerPlans.mem_recordKinds {layers : LayerPlans} {kind : StateRecord} :
    kind ∈ layers.recordKinds ↔ layersOf layers.plans kind ≠ [] := by
  have hall : kind ∈ StateRecord.all := Finset.mem_univ kind
  rw [recordKinds, List.mem_filter, and_iff_right hall, List.any_eq_true, ne_eq, layersOf,
    List.filter_eq_nil_iff]
  push Not
  rfl

theorem LayerPlans.recordKinds_data {layers : LayerPlans} {kind : StateRecord}
    (h : kind ∈ layers.recordKinds) : kind ≠ .logicalPositions := by
  obtain ⟨plan, hplan⟩ := List.exists_mem_of_ne_nil _ (mem_recordKinds.mp h)
  rw [← (mem_layersOf.mp hplan).2]
  exact plan.data

/-! ## What is captured -/

/-- The row of a layer that a request keeps for an ordinal. -/
def capturedRow (rows : String → List Bytes) (blockIds : List ℕ) (blockSize : ℕ) (name : String)
    (ordinal : ℕ) : Bytes :=
  rowAtSlot rows name (slotOf blockIds blockSize ordinal)

/-- The first token that a store publishes. -/
def ReqPlan.publicationStart (plan : ReqPlan) : ℕ :=
  if plan.baseContextDigest.isSome then plan.baseSpanTokens else 0

/-- A snapshot of consecutive ordinals of a rank. -/
structure StoreSnapshot.Captures (s : StoreSnapshot) (plans : List LayerPlan) (dcpDegree dcpRank : ℕ)
    (row : String → ℕ → Bytes) (first count : ℕ) : Prop where
  positions : s.positions = positionsOf dcpDegree dcpRank first count
  layerBytes : s.layerBytes = plans.map fun plan => (plan.name, FixedRows.joined (row plan.name) first count)
  sized : RowsSized plans row first count

theorem Worker.rank_lt (w : Worker) : w.rank < w.identity.dcpDegree := by
  have hrank := w.identity.ranks.1.2
  rw [w.shard] at hrank
  exact_mod_cast hrank

/-- The rows of a span, or of what follows its base, as a snapshot has them. -/
theorem Worker.snapshotStore_captures (w : Worker) {tensors : LayerTensors w.layers} {plan : ReqPlan}
    {s : StoreSnapshot} {first total : ℕ} (hspan : plan.spanTokens = total * w.identity.dcpDegree)
    (hstart : plan.publicationStart = first * w.identity.dcpDegree) (hfirst : first ≤ total)
    (h : w.snapshotStore tensors plan = .ok s) :
    s.plan = plan ∧ s.logicalStart = plan.publicationStart ∧
      s.Captures w.layers.plans w.identity.dcpDegree w.rank
        (capturedRow tensors.rows plan.blockIds w.blockSize) first (total - first) := by
  have hrank := w.rank_lt
  unfold Worker.snapshotStore localSlotsForPositions at h
  simp only [bind_eq_ok, require_eq_ok, slotsWithin_eq_ok, gatherLayers_eq_ok, pure, Except.pure,
    Except.ok.injEq] at h
  obtain ⟨_, -, owned, howned, slots, ⟨_, -, hcapacity, hslots⟩, layerBytes, ⟨hrows, rfl⟩, rfl⟩ := h
  have htotal : 0 < total := by
    have hpositive : 0 < plan.spanTokens := by
      unfold ownedPositions at howned
      simp only [bind_eq_ok, require_eq_ok] at howned
      obtain ⟨_, hpositive, -⟩ := howned
      exact hpositive
    rw [hspan] at hpositive
    exact Nat.pos_of_mul_pos_right hpositive
  rw [hspan, ownedPositions_eq hrank htotal] at howned
  have hpositions : owned.filter (fun p => plan.publicationStart ≤ p) =
      positionsOf w.identity.dcpDegree w.rank first (total - first) := by
    rw [← Except.ok.inj howned, hstart, ← positionsOf_filter hrank hfirst, positionsOf_eq, Nat.zero_mul,
      Nat.zero_add]
  have hordinals : slots = (List.range' first (total - first)).map (slotOf plan.blockIds w.blockSize) := by
    rw [hslots]
    show (owned.filter fun p => plan.publicationStart ≤ p).map _ = _
    rw [hpositions, positionsOf, List.map_map]
    refine List.map_congr_left fun ordinal _ => ?_
    rw [Function.comp_apply, ordinal_of_position hrank]
  refine ⟨rfl, rfl, hpositions, ?_, ?_⟩
  · refine List.map_congr_left fun plan' _ => ?_
    rw [hordinals, List.flatMap_map]
    rfl
  · intro plan' hplan ordinal hle hlt
    have hslot : slotOf plan.blockIds w.blockSize ordinal ∈ slots := by
      rw [hordinals]
      exact List.mem_map_of_mem (List.mem_range'_1.mpr ⟨hle, hlt⟩)
    have hin := hrows plan' hplan _ hslot
    rw [capturedRow, rowAtSlot, List.getD_eq_getElem?_getD, List.getElem?_eq_getElem hin, Option.getD_some]
    exact tensors.wide plan' hplan _ (List.getElem_mem hin)

section Chunks
variable {s : StoreSnapshot} {layers : LayerPlans} {dcpDegree dcpRank rows first chunks : ℕ}
  {row : String → ℕ → Bytes} (h : s.Captures layers.plans dcpDegree dcpRank row first (chunks * rows))
  {index : ℕ} (hindex : index < chunks)
include h hindex

theorem StoreSnapshot.Captures.layerRows {kind : StateRecord} {plan : LayerPlan}
    (hplan : plan ∈ layersOf layers.plans kind) :
    s.layerRows layers.plans kind rows index plan.name =
      some (FixedRows.joined (row plan.name) (first + index * rows) rows) := by
  have hmem := (mem_layersOf.mp hplan).1
  have hbound := Nat.mul_le_mul_right rows (Nat.succ_le_of_lt hindex)
  have hcut := FixedRows.take_drop_joined (h.sized plan hmem) (a := index * rows) (b := (index + 1) * rows)
    (Nat.mul_le_mul_right rows (Nat.le_succ index)) hbound
  rw [Nat.sub_mul] at hcut
  rw [StoreSnapshot.layerRows, find?_name (layersOf_nodup layers.nodup kind) hplan, Option.bind_some,
    h.layerBytes, lookup_name layers.nodup hmem, Option.map_some, slice, hcut, Nat.succ_mul,
    Nat.add_sub_cancel_left]

theorem StoreSnapshot.Captures.records {kinds : List StateRecord} (hkinds : ∀ kind ∈ kinds, kind ∈ layers.recordKinds) :
    s.records layers.plans rows index kinds =
      .ok (kinds.map fun kind => (kind, recordBytes layers.plans kind row (first + index * rows) rows)) := by
  have hbound := Nat.mul_le_mul_right rows (Nat.succ_le_of_lt hindex)
  rw [Nat.succ_mul] at hbound
  have hsized : RowsSized layers.plans row (first + index * rows) rows :=
    h.sized.mono (Nat.le_add_right _ _) (by omega)
  induction kinds with
  | nil => rfl
  | cons kind rest ih =>
      rw [List.forall_mem_cons] at hkinds
      have hpacked := packRecord_rows hsized (LayerPlans.mem_recordKinds.mp hkinds.1)
        fun plan hplan => h.layerRows hindex hplan
      rw [StoreSnapshot.records, hpacked]
      show (StoreSnapshot.records s layers.plans rows index rest >>= _) = _
      rw [ih hkinds.2]
      rfl

end Chunks

/-- A chunk of the rows of a rank: the positions, and a record of each kind that has a layer. -/
structure HoldsRows (layers : LayerPlans) (dcpDegree dcpRank rows : ℕ) (row : String → ℕ → Bytes)
    (index : ℕ) (c : ContextChunk) : Prop where
  logicalStart : c.logicalStart = index * (rows * dcpDegree)
  logicalEnd : c.logicalEnd = (index + 1) * (rows * dcpDegree)
  positions : ∃ packed, packPositions (positionsOf dcpDegree dcpRank (index * rows) rows) = .ok packed ∧
    c.records .logicalPositions = some packed
  records : ∀ kind ∈ layers.recordKinds,
    c.records kind = some (recordBytes layers.plans kind row (index * rows) rows)
  others : ∀ kind, kind ≠ .logicalPositions → kind ∉ layers.recordKinds → c.records kind = none

theorem contextChunk_of_eq_ok {start stop : ℕ} {supplied : List (StateRecord × Bytes)} {c : ContextChunk}
    (h : ContextChunk.of start stop supplied = .ok c) :
    c.logicalStart = start ∧ c.logicalEnd = stop ∧ ∀ kind, c.records kind = supplied.lookup kind := by
  unfold ContextChunk.of at h
  split at h
  · split at h
    · split at h
      · cases h
        exact ⟨Int.toNat_natCast start, Int.toNat_natCast stop, fun _ => rfl⟩
      · cases h
    · cases h
  · cases h

theorem lookup_records {kinds : List StateRecord} {payload : StateRecord → Bytes} {kind : StateRecord} :
    (kinds.map fun k => (k, payload k)).lookup kind = if kind ∈ kinds then some (payload kind) else none := by
  induction kinds with
  | nil => rfl
  | cons first rest ih =>
      rw [List.map_cons, List.lookup_cons]
      by_cases hkind : kind = first
      · subst hkind
        simp
      · rw [beq_eq_false_iff_ne.mpr hkind, ih]
        simp [hkind]

/-- What a snapshot yields for an index. -/
theorem StoreSnapshot.Captures.chunk_eq {s : StoreSnapshot} {layers : LayerPlans}
    {dcpDegree dcpRank rows before chunks index : ℕ} {row : String → ℕ → Bytes}
    (h : s.Captures layers.plans dcpDegree dcpRank row (before * rows) (chunks * rows))
    (hindex : index < chunks) (chunkTokens : ℕ) :
    s.chunk layers chunkTokens rows index =
      packPositions (positionsOf dcpDegree dcpRank ((before + index) * rows) rows) >>= fun packed =>
        ContextChunk.of ↑(s.logicalStart + index * chunkTokens) ↑(s.logicalStart + (index + 1) * chunkTokens)
          ((.logicalPositions, packed) :: layers.recordKinds.map fun kind =>
            (kind, recordBytes layers.plans kind row ((before + index) * rows) rows)) := by
  have hbound := Nat.mul_le_mul_right rows (Nat.succ_le_of_lt hindex)
  have hcount : (index + 1) * rows - index * rows = rows := by
    rw [Nat.succ_mul, Nat.add_sub_cancel_left]
  have hwindow : ((positionsOf dcpDegree dcpRank (before * rows) (chunks * rows)).drop (index * rows)).take
      ((index + 1) * rows - index * rows) = _ :=
    positionsOf_window (Nat.mul_le_mul_right rows (Nat.le_succ index)) hbound
  rw [hcount, ← Nat.add_mul] at hwindow
  have hrecords := h.records hindex fun kind (hkind : kind ∈ layers.recordKinds) => hkind
  rw [← Nat.add_mul] at hrecords
  unfold StoreSnapshot.chunk
  rw [hcount, h.positions, hwindow]
  simp only [hrecords]
  rfl

theorem StoreSnapshot.Captures.chunk {s : StoreSnapshot} {layers : LayerPlans}
    {dcpDegree dcpRank rows before chunks index : ℕ} {row : String → ℕ → Bytes}
    (h : s.Captures layers.plans dcpDegree dcpRank row (before * rows) (chunks * rows))
    (hindex : index < chunks) (hstart : s.logicalStart = before * (rows * dcpDegree)) {c : ContextChunk}
    (hchunk : s.chunk layers (rows * dcpDegree) rows index = .ok c) :
    HoldsRows layers dcpDegree dcpRank rows row (before + index) c := by
  rw [h.chunk_eq hindex, bind_eq_ok] at hchunk
  obtain ⟨packed, hpacked, hof⟩ := hchunk
  obtain ⟨hfrom, hto, hlookup⟩ := contextChunk_of_eq_ok hof
  refine ⟨?_, ?_, ⟨packed, hpacked, ?_⟩, ?_, ?_⟩
  · rw [hfrom, hstart]
    ring
  · rw [hto, hstart]
    ring
  · rw [hlookup, List.lookup_cons_self]
  · intro kind hkind
    rw [hlookup, List.lookup_cons, beq_eq_false_iff_ne.mpr (LayerPlans.recordKinds_data hkind),
      lookup_records, if_pos hkind]
  · intro kind hpositions hkind
    rw [hlookup, List.lookup_cons, beq_eq_false_iff_ne.mpr hpositions, lookup_records, if_neg hkind]

end SparkCache.Rows
