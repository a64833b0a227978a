import SparkCache.Lib.FixedRows
import SparkCache.Store.TokenDigest

/-!
# The row codec

Which rank owns a token, where its rows lie, and how the rows of several layers are packed into the
records of a chunk. A `CodecError` is a `ValueError`.
-/
namespace SparkCache.Rows
open Store
open Pages (slice bind_eq_ok)

/-- `owned_positions`, at interleave 1 -/
def ownedPositions (spanTokens dcpDegree dcpRank : ℕ) : Except StoreError (List ℕ) := do
  require (0 < spanTokens) (.value "span must be positive")
  require (dcpRank < dcpDegree) (.value "dcp_rank out of range")
  return List.range' dcpRank ((spanTokens - dcpRank + (dcpDegree - 1)) / dcpDegree) dcpDegree

/-- The slot of a local ordinal. -/
def slotOf (blockIds : List ℕ) (blockSize ordinal : ℕ) : ℕ :=
  blockIds.getD (ordinal / blockSize) 0 * blockSize + ordinal % blockSize

def slotsWithin (blockIds : List ℕ) (blockSize dcpDegree : ℕ) : List ℕ → Except StoreError (List ℕ)
  | [] => .ok []
  | p :: rest => do
      let ordinal := p / dcpDegree
      let capacity := blockIds.length * blockSize
      require (ordinal < capacity)
        (.value s!"position {p} ordinal {ordinal} exceeds allocated capacity {capacity}")
      let slots ← slotsWithin blockIds blockSize dcpDegree rest
      return slotOf blockIds blockSize ordinal :: slots

def localSlotsForPositions (positions blockIds : List ℕ) (blockSize dcpDegree : ℕ) :
    Except StoreError (List ℕ) := do
  require (0 < blockSize) (.value "block_size must be positive")
  slotsWithin blockIds blockSize dcpDegree positions

def chunkCount (spanTokens chunkTokens : ℕ) : Except StoreError ℕ := do
  require (0 < chunkTokens) (.value "chunk_tokens must be positive")
  require (0 < spanTokens ∧ spanTokens % chunkTokens = 0)
    (.value "span must be a positive multiple of chunk_tokens")
  return spanTokens / chunkTokens

/-- A layer's record kind is a data family; the positions are a record of their own. -/
structure LayerPlan where
  name : String
  recordKind : StateRecord
  bytesPerToken : ℕ
  positive : 0 < bytesPerToken
  data : recordKind ≠ .logicalPositions
  deriving DecidableEq

/-- The plans of the registered layers, sorted by name. -/
structure LayerPlans where
  plans : List LayerPlan
  sorted : (plans.map LayerPlan.name).Pairwise (· < ·)

/-- The record kinds of the layers, sorted. -/
def LayerPlans.recordKinds (layers : LayerPlans) : List StateRecord :=
  StateRecord.all.filter fun kind => layers.plans.any fun plan => plan.recordKind = kind

/-- The layers of a record kind. -/
def layersOf (plans : List LayerPlan) (kind : StateRecord) : List LayerPlan :=
  plans.filter fun plan => plan.recordKind = kind

def packPositions (positions : List ℕ) : Except StoreError Bytes := do
  require (positions ≠ []) (.value "a chunk shard must own at least one position")
  packU32 (positions.map Int.ofNat) "positions"

/-- Unsigned 32-bit integers, least significant byte first. -/
def words : Bytes → List ℕ
  | a :: b :: c :: d :: rest => FixedWidth.value [a, b, c, d] :: words rest
  | _ => []

def unpackPositions (payload : Bytes) : Except StoreError (List ℕ) := do
  require (payload ≠ [] ∧ payload.length % 4 = 0) (.value "malformed positions payload")
  return words payload

/-- The payloads of the layers of one record kind. -/
def packLayers (layerRows : String → Option Bytes) (rows : ℕ) : List LayerPlan → Except StoreError (List Bytes)
  | [] => .ok []
  | plan :: rest => do
      let payload ← expect (layerRows plan.name) (.value s!"missing rows for layer {plan.name}")
      require (payload.length = plan.bytesPerToken * rows)
        (.value s!"layer {plan.name} rows are {payload.length} bytes")
      let parts ← packLayers layerRows rows rest
      return payload :: parts

def packRecord (plans : List LayerPlan) (kind : StateRecord) (layerRows : String → Option Bytes)
    (rows : ℕ) : Except StoreError Bytes := do
  let parts ← packLayers layerRows rows (layersOf plans kind)
  require (parts ≠ []) (.value ("no layers contribute to " ++ kind.text))
  return parts.flatten

/-- The layers' payloads from an offset on, and the offset after them. -/
def unpackLayers (kind : StateRecord) (payload : Bytes) (rows : ℕ) :
    ℕ → List LayerPlan → Except StoreError (List (String × Bytes) × ℕ)
  | offset, [] => .ok ([], offset)
  | offset, plan :: rest => do
      let size := plan.bytesPerToken * rows
      require (offset + size ≤ payload.length)
        (.value s!"record {kind.text} truncated at layer {plan.name}")
      let (out, last) ← unpackLayers kind payload rows (offset + size) rest
      return ((plan.name, slice payload offset (offset + size)) :: out, last)

def unpackRecord (plans : List LayerPlan) (kind : StateRecord) (payload : Bytes) (rows : ℕ) :
    Except StoreError (List (String × Bytes)) := do
  let (out, last) ← unpackLayers kind payload rows 0 (layersOf plans kind)
  require (out ≠ []) (.value ("no layers contribute to " ++ kind.text))
  require (last = payload.length)
    (.value s!"record {kind.text} carries {payload.length - last} unclaimed trailing bytes")
  return out

/-! ## Ownership -/

/-- The positions of a rank in a span of that many rows a rank. -/
theorem ownedPositions_eq {dcpDegree dcpRank rows : ℕ} (hrank : dcpRank < dcpDegree) (hrows : 0 < rows) :
    ownedPositions (rows * dcpDegree) dcpDegree dcpRank = .ok (List.range' dcpRank rows dcpDegree) := by
  have hdegree : 0 < dcpDegree := Nat.zero_lt_of_lt hrank
  have hcount : (rows * dcpDegree - dcpRank + (dcpDegree - 1)) / dcpDegree = rows := by
    obtain ⟨n, rfl⟩ := Nat.exists_eq_succ_of_ne_zero hrows.ne'
    rw [Nat.div_eq_iff hdegree, Nat.succ_mul]
    omega
  unfold ownedPositions
  rw [require_of (Nat.mul_pos hrows hdegree), require_of hrank, hcount]
  rfl

theorem mem_ownedPositions {spanTokens dcpDegree dcpRank : ℕ} {positions : List ℕ}
    (h : ownedPositions spanTokens dcpDegree dcpRank = .ok positions) {p : ℕ} :
    p ∈ positions ↔ p < spanTokens ∧ p % dcpDegree = dcpRank := by
  unfold ownedPositions at h
  simp only [bind_eq_ok, require_eq_ok, pure, Except.pure, Except.ok.injEq] at h
  obtain ⟨_, -, _, hrank, rfl⟩ := h
  have hdegree : 0 < dcpDegree := Nat.zero_lt_of_lt hrank
  rw [List.mem_range']
  constructor
  · rintro ⟨k, hk, rfl⟩
    rw [Nat.lt_div_iff_mul_lt hdegree] at hk
    rw [Nat.add_mul_mod_self_left, Nat.mod_eq_of_lt hrank, Nat.mul_comm]
    exact ⟨by omega, rfl⟩
  · rintro ⟨hlt, rfl⟩
    have hsplit := Nat.div_add_mod p dcpDegree
    refine ⟨p / dcpDegree, ?_, ?_⟩
    · rw [Nat.lt_div_iff_mul_lt hdegree, Nat.mul_comm]
      omega
    · omega

/-- Every token of a span is owned by exactly one rank. -/
theorem ownedPositions_partition {spanTokens dcpDegree p : ℕ} (hdegree : 0 < dcpDegree) (hp : p < spanTokens) :
    ∃! dcpRank, dcpRank < dcpDegree ∧
      ∃ positions, ownedPositions spanTokens dcpDegree dcpRank = .ok positions ∧ p ∈ positions := by
  refine ⟨p % dcpDegree, ⟨Nat.mod_lt p hdegree, ?_⟩, ?_⟩
  · have hok : ∃ positions, ownedPositions spanTokens dcpDegree (p % dcpDegree) = .ok positions := by
      unfold ownedPositions
      rw [require_of (by omega), require_of (Nat.mod_lt p hdegree)]
      exact ⟨_, rfl⟩
    obtain ⟨positions, hpositions⟩ := hok
    exact ⟨positions, hpositions, (mem_ownedPositions hpositions).mpr ⟨hp, rfl⟩⟩
  · rintro r ⟨-, positions, hpositions, hmem⟩
    exact ((mem_ownedPositions hpositions).mp hmem).2.symm

/-! ## Slots -/

theorem slotsWithin_eq_ok {blockIds : List ℕ} {blockSize dcpDegree : ℕ} {positions : List ℕ} :
    ∀ {slots : List ℕ}, slotsWithin blockIds blockSize dcpDegree positions = .ok slots ↔
      (∀ p ∈ positions, p / dcpDegree < blockIds.length * blockSize) ∧
        slots = positions.map fun p => slotOf blockIds blockSize (p / dcpDegree) := by
  induction positions with
  | nil =>
      intro slots
      simp [slotsWithin, eq_comm]
  | cons p rest ih =>
      intro slots
      simp only [slotsWithin, bind_eq_ok, require_eq_ok, ih, pure, Except.pure, Except.ok.injEq,
        List.forall_mem_cons, List.map_cons]
      constructor
      · rintro ⟨_, hfirst, _, ⟨hrest, rfl⟩, rfl⟩
        exact ⟨⟨hfirst, hrest⟩, rfl⟩
      · rintro ⟨⟨hfirst, hrest⟩, rfl⟩
        exact ⟨(), hfirst, _, ⟨hrest, rfl⟩, rfl⟩

/-- Different ordinals have different slots if no block is repeated. -/
theorem slotOf_injOn {blockIds : List ℕ} {blockSize : ℕ} (hblocks : blockIds.Nodup) :
    Set.InjOn (slotOf blockIds blockSize) {ordinal | ordinal < blockIds.length * blockSize} := by
  intro a ha b hb heq
  have hsize : 0 < blockSize := by
    by_contra hzero
    simp only [Set.mem_ofPred_eq, Nat.le_zero.mp (Nat.le_of_not_lt hzero), Nat.mul_zero] at ha
    exact absurd ha (Nat.not_lt_zero a)
  have hindex : ∀ {n : ℕ}, n < blockIds.length * blockSize → n / blockSize < blockIds.length :=
    fun hn => (Nat.div_lt_iff_lt_mul hsize).mpr hn
  have hdiv : ∀ n, slotOf blockIds blockSize n / blockSize = blockIds.getD (n / blockSize) 0 := by
    intro n
    rw [slotOf, Nat.mul_comm, Nat.mul_add_div hsize, Nat.div_eq_of_lt (Nat.mod_lt n hsize), Nat.add_zero]
  have hmod : ∀ n, slotOf blockIds blockSize n % blockSize = n % blockSize := by
    intro n
    rw [slotOf, Nat.mul_comm, Nat.mul_add_mod, Nat.mod_mod]
  have hblock : blockIds.getD (a / blockSize) 0 = blockIds.getD (b / blockSize) 0 := by
    rw [← hdiv, ← hdiv, heq]
  have hoffset : a % blockSize = b % blockSize := by rw [← hmod a, ← hmod b, heq]
  have hsame : a / blockSize = b / blockSize := by
    simp only [List.getD_eq_getElem?_getD, List.getElem?_eq_getElem (hindex ha),
      List.getElem?_eq_getElem (hindex hb), Option.getD_some] at hblock
    exact (List.Nodup.getElem_inj_iff hblocks).mp hblock
  rw [← Nat.div_add_mod a blockSize, ← Nat.div_add_mod b blockSize, hsame, hoffset]

/-! ## Positions -/

theorem words_little (values : List ℕ) (h : ∀ v ∈ values, v < 256 ^ 4) :
    words (values.flatMap (FixedWidth.little 4)) = values := by
  induction values with
  | nil => rfl
  | cons v rest ih =>
      rw [List.forall_mem_cons] at h
      have hvalue := FixedWidth.value_little 4 v h.1
      have hrest := ih h.2
      rw [List.flatMap_cons]
      generalize rest.flatMap (FixedWidth.little 4) = packed at hrest ⊢
      simp only [FixedWidth.little] at hvalue
      simp only [FixedWidth.little, List.cons_append, List.nil_append, words, hvalue, hrest]

theorem packPositions_eq_ok {positions : List ℕ} {packed : Bytes} :
    packPositions positions = .ok packed ↔ positions ≠ [] ∧ (∀ p ∈ positions, p < 256 ^ 4) ∧
      packed = positions.flatMap (FixedWidth.little 4) := by
  unfold packPositions
  simp only [bind_eq_ok, require_eq_ok, packU32_eq_ok, List.forall_mem_map, List.flatMap_map]
  constructor
  · rintro ⟨_, hne, hall, rfl⟩
    refine ⟨hne, fun p hp => ?_, by simp⟩
    have hlt := (hall p hp).2
    simp only [Int.ofNat_eq_natCast] at hlt
    omega
  · rintro ⟨hne, hall, rfl⟩
    refine ⟨(), hne, fun p hp => ?_, by simp⟩
    have hlt := hall p hp
    simp only [Int.ofNat_eq_natCast]
    omega

theorem unpackPositions_packed {positions : List ℕ} {packed : Bytes}
    (h : packPositions positions = .ok packed) : unpackPositions packed = .ok positions := by
  obtain ⟨hne, hall, rfl⟩ := packPositions_eq_ok.mp h
  have hlength : (positions.flatMap (FixedWidth.little 4)).length = 4 * positions.length := by
    rw [List.length_flatMap]
    simp [Nat.mul_comm]
  have hpos := List.length_pos_of_ne_nil hne
  unfold unpackPositions
  rw [require_of ⟨List.ne_nil_of_length_pos (by omega), by omega⟩]
  exact congrArg Except.ok (words_little positions hall)

/-! ## Records -/

/-- The packed rows of a record kind, from a row on. -/
def recordBytes (plans : List LayerPlan) (kind : StateRecord) (row : String → ℕ → Bytes)
    (start rows : ℕ) : Bytes :=
  (layersOf plans kind).flatMap fun plan => FixedRows.joined (row plan.name) start rows

/-- The rows of every layer are as wide as its plan says. -/
def RowsSized (plans : List LayerPlan) (row : String → ℕ → Bytes) (start rows : ℕ) : Prop :=
  ∀ plan ∈ plans, ∀ k, start ≤ k → k < start + rows → (row plan.name k).length = plan.bytesPerToken

theorem RowsSized.length {plans : List LayerPlan} {row : String → ℕ → Bytes} {start rows : ℕ}
    (h : RowsSized plans row start rows) {plan : LayerPlan} (hplan : plan ∈ plans) :
    (FixedRows.joined (row plan.name) start rows).length = plan.bytesPerToken * rows := by
  rw [FixedRows.joined_length (h plan hplan), Nat.mul_comm]

theorem RowsSized.mono {plans : List LayerPlan} {row : String → ℕ → Bytes} {start rows start' rows' : ℕ}
    (h : RowsSized plans row start rows) (hstart : start ≤ start') (hend : start' + rows' ≤ start + rows) :
    RowsSized plans row start' rows' :=
  fun plan hplan k hk hlt => h plan hplan k (hstart.trans hk) (hlt.trans_le hend)

theorem mem_layersOf {plans : List LayerPlan} {kind : StateRecord} {plan : LayerPlan} :
    plan ∈ layersOf plans kind ↔ plan ∈ plans ∧ plan.recordKind = kind := by
  simp [layersOf]

theorem packLayers_eq_ok {layerRows : String → Option Bytes} {rows : ℕ} {plans : List LayerPlan} :
    ∀ {parts : List Bytes}, packLayers layerRows rows plans = .ok parts ↔
      (∀ plan ∈ plans, ∃ payload, layerRows plan.name = some payload ∧
        payload.length = plan.bytesPerToken * rows) ∧
      parts = plans.map fun plan => (layerRows plan.name).getD [] := by
  induction plans with
  | nil =>
      intro parts
      simp [packLayers, eq_comm]
  | cons plan rest ih =>
      intro parts
      simp only [packLayers, bind_eq_ok, expect_eq_ok, require_eq_ok, ih, pure, Except.pure,
        Except.ok.injEq, List.forall_mem_cons, List.map_cons]
      constructor
      · rintro ⟨payload, hpayload, _, hlength, _, ⟨hrest, rfl⟩, rfl⟩
        exact ⟨⟨⟨payload, hpayload, hlength⟩, hrest⟩, by rw [hpayload, Option.getD_some]⟩
      · rintro ⟨⟨⟨payload, hpayload, hlength⟩, hrest⟩, rfl⟩
        exact ⟨payload, hpayload, (), hlength, _, ⟨hrest, rfl⟩, by rw [hpayload, Option.getD_some]⟩

/-- Rows of the right width are packed, if the record has a layer. -/
theorem packRecord_rows {plans : List LayerPlan} {kind : StateRecord} {row : String → ℕ → Bytes}
    {start rows : ℕ} (h : RowsSized plans row start rows) (hkind : layersOf plans kind ≠ [])
    {layerRows : String → Option Bytes}
    (hrows : ∀ plan ∈ layersOf plans kind,
      layerRows plan.name = some (FixedRows.joined (row plan.name) start rows)) :
    packRecord plans kind layerRows rows = .ok (recordBytes plans kind row start rows) := by
  have hparts := packLayers_eq_ok.mpr ⟨fun plan hplan => ⟨_, hrows plan hplan,
    h.length (mem_layersOf.mp hplan).1⟩, rfl⟩
  unfold packRecord
  rw [hparts]
  show (require _ _ >>= fun _ => _) = _
  rw [require_of (by simpa using hkind), recordBytes, List.flatMap_def]
  refine congrArg Except.ok (congrArg List.flatten (List.map_congr_left fun plan hplan => ?_))
  rw [hrows plan hplan, Option.getD_some]

theorem unpackLayers_eq_ok {kind : StateRecord} {payload : Bytes} {rows : ℕ} {plans : List LayerPlan} :
    ∀ {offset last : ℕ} {out : List (String × Bytes)},
      unpackLayers kind payload rows offset plans = .ok (out, last) →
      List.Forall₂ (fun plan piece => piece.1 = plan.name ∧ piece.2.length = plan.bytesPerToken * rows)
        plans out ∧
      payload.drop offset = (out.map Prod.snd).flatten ++ payload.drop last ∧ offset ≤ last := by
  induction plans with
  | nil =>
      intro offset last out h
      cases h
      exact ⟨.nil, rfl, le_rfl⟩
  | cons plan rest ih =>
      intro offset last out h
      simp only [unpackLayers, bind_eq_ok, require_eq_ok, Prod.exists, pure, Except.pure,
        Except.ok.injEq, Prod.mk.injEq] at h
      obtain ⟨_, hle, more, _, hrest, rfl, rfl⟩ := h
      obtain ⟨hpieces, hdrop, hlast⟩ := ih hrest
      have hlength : (slice payload offset (offset + plan.bytesPerToken * rows)).length = _ :=
        Pages.slice_length hle
      rw [Nat.add_sub_cancel_left] at hlength
      refine ⟨.cons ⟨rfl, hlength⟩ hpieces, ?_, by omega⟩
      rw [List.map_cons, List.flatten_cons, List.append_assoc, ← hdrop, slice, Nat.add_sub_cancel_left,
        ← List.drop_drop, List.take_append_drop]

theorem unpackLayers_rows {plans : List LayerPlan} {kind : StateRecord} {row : String → ℕ → Bytes}
    {start rows : ℕ} (h : RowsSized plans row start rows) {payload : Bytes} :
    ∀ {offset : ℕ}, payload.drop offset =
        plans.flatMap (fun plan => FixedRows.joined (row plan.name) start rows) →
      offset ≤ payload.length →
      unpackLayers kind payload rows offset plans =
        .ok (plans.map fun plan => (plan.name, FixedRows.joined (row plan.name) start rows),
          payload.length) := by
  induction plans with
  | nil =>
      intro offset hdrop hle
      have hlength := congrArg List.length hdrop
      rw [List.length_drop, List.flatMap_nil, List.length_nil] at hlength
      rw [unpackLayers, show offset = payload.length by omega]
      rfl
  | cons plan rest ih =>
      intro offset hdrop hle
      have hsized : RowsSized rest row start rows :=
        fun plan hplan => h plan (List.mem_cons_of_mem _ hplan)
      have hfirst := h.length (List.mem_cons_self ..)
      rw [List.flatMap_cons] at hdrop
      have hlength := congrArg List.length hdrop
      rw [List.length_drop, List.length_append, hfirst] at hlength
      have hnext : payload.drop (offset + plan.bytesPerToken * rows) =
          rest.flatMap (fun plan => FixedRows.joined (row plan.name) start rows) := by
        rw [← List.drop_drop, hdrop, List.drop_left' hfirst]
      have hpiece : slice payload offset (offset + plan.bytesPerToken * rows) =
          FixedRows.joined (row plan.name) start rows := by
        rw [slice, hdrop, Nat.add_sub_cancel_left, List.take_left' hfirst]
      rw [unpackLayers]
      simp only [require_of (show offset + plan.bytesPerToken * rows ≤ payload.length by omega)]
      show (unpackLayers kind payload rows (offset + plan.bytesPerToken * rows) rest >>= _) = _
      rw [ih hsized hnext (by omega), List.map_cons, hpiece]
      rfl

/-- What has been packed is unpacked. -/
theorem unpackRecord_rows {plans : List LayerPlan} {kind : StateRecord} {row : String → ℕ → Bytes}
    {start rows : ℕ} (h : RowsSized plans row start rows) (hkind : layersOf plans kind ≠ []) :
    unpackRecord plans kind (recordBytes plans kind row start rows) rows =
      .ok ((layersOf plans kind).map fun plan => (plan.name, FixedRows.joined (row plan.name) start rows)) := by
  have hsized : RowsSized (layersOf plans kind) row start rows :=
    fun plan hplan => h plan (mem_layersOf.mp hplan).1
  unfold unpackRecord
  have hlayers : unpackLayers kind (recordBytes plans kind row start rows) rows 0 (layersOf plans kind) = _ :=
    unpackLayers_rows hsized rfl (Nat.zero_le _)
  rw [hlayers]
  show (require _ _ >>= fun _ => require _ _ >>= fun _ => _) = _
  rw [require_of (by simpa using hkind), require_of rfl]
  rfl

theorem unpackRecord_eq_ok {plans : List LayerPlan} {kind : StateRecord} {payload : Bytes} {rows : ℕ}
    {out : List (String × Bytes)} (h : unpackRecord plans kind payload rows = .ok out) :
    List.Forall₂ (fun plan piece => piece.1 = plan.name ∧ piece.2.length = plan.bytesPerToken * rows)
      (layersOf plans kind) out ∧ payload = (out.map Prod.snd).flatten := by
  unfold unpackRecord at h
  simp only [bind_eq_ok, require_eq_ok, Prod.exists, pure, Except.pure, Except.ok.injEq] at h
  obtain ⟨_, last, hlayers, _, -, _, rfl, rfl⟩ := h
  obtain ⟨hpieces, hdrop, -⟩ := unpackLayers_eq_ok hlayers
  refine ⟨hpieces, ?_⟩
  rw [List.drop_zero, List.drop_length, List.append_nil] at hdrop
  exact hdrop

end SparkCache.Rows
