import SparkCache.Rows.Capture
import SparkCache.Store.Extension

/-!
# Restored rows

The Python restore of the rows of a rank. The records of every chunk are split by layer, the pieces
of a layer are joined over the chunks, and each row goes to the slot of its token.
-/
namespace SparkCache.Rows
open Store Files.FileM
open Pages (slice bind_eq_ok)

/-- The records of a chunk, split by layer. -/
def unpackKinds (plans : List LayerPlan) (c : ContextChunk) (rows : ℕ) :
    List StateRecord → Except StoreError (List (String × Bytes))
  | [] => .ok []
  | kind :: rest => do
      let payload ← expect (c.records kind) .key
      let split ← unpackRecord plans kind payload rows
      let others ← unpackKinds plans c rows rest
      return split ++ others

/-- The rows of the chunk with an index; its positions must be those of the rank. -/
def assembleChunk (layers : LayerPlans) (positions : List ℕ) (rows index : ℕ) (c : ContextChunk) :
    Except StoreError (List (String × Bytes)) := do
  let expected := (positions.drop (index * rows)).take ((index + 1) * rows - index * rows)
  let payload ← expect (c.records .logicalPositions) .key
  let stored ← unpackPositions payload
  require (stored = expected) (.value "stored positions disagree with shard")
  unpackKinds layers.plans c rows layers.recordKinds

/-- The loop over the chunks from an index on. -/
def assembleChunks (layers : LayerPlans) (positions : List ℕ) (rows : ℕ) :
    ℕ → List ContextChunk → Except StoreError (List (List (String × Bytes)))
  | _, [] => .ok []
  | index, c :: rest => do
      let pieces ← assembleChunk layers positions rows index c
      let others ← assembleChunks layers positions rows (index + 1) rest
      return pieces :: others

/-- `b"".join(layer_rows[name])` -/
def layerPayload (pieces : List (List (String × Bytes))) (name : String) : Bytes :=
  pieces.flatMap fun split => (split.lookup name).getD []

/-- `torch.frombuffer(payload).reshape(count, width)` -/
def stagedRows (payload : Bytes) (count width : ℕ) : Except StoreError (List Bytes) := do
  require (payload.length = count * width)
    (.runtime s!"shape [{count}, {width}] is invalid for input of size {payload.length}")
  return (List.range count).map (FixedRows.rowAt width payload)

/-- `rows[slots] = staged` -/
def writeRows (rows : List Bytes) (slots : List ℕ) (staged : List Bytes) : Except StoreError (List Bytes) := do
  require (∀ slot ∈ slots, slot < rows.length) (.runtime "index is out of bounds")
  return FixedRows.scatter rows (slots.zip staged)

/-- The loop over the layers; what is written before an error stays. -/
def writeLayers (slots : List ℕ) (payload : String → Bytes) :
    List LayerPlan → (String → List Bytes) → Except StoreError Unit × (String → List Bytes)
  | [], rows => (.ok (), rows)
  | plan :: rest, rows =>
      match stagedRows (payload plan.name) slots.length plan.bytesPerToken >>=
          writeRows (rows plan.name) slots with
      | .error e => (.error e, rows)
      | .ok written => writeLayers slots payload rest (Function.update rows plan.name written)

/-- The chunks of an entry of that many tokens. -/
def Worker.restoreChunks (w : Worker) (files : Disk) (digest : Digest) (spanTokens : ℕ) :
    Except StoreError (List ContextChunk) := do
  match ← lookup files w.identity digest .manifestOnly .perTokenRows with
  | .miss reason => .error (.runtime ("miss: " ++ reason.text))
  | .hit h => do
      let chunks ← expect (← restore files h) (.runtime "the entry is not restored")
      require (chunks.length = (← chunkCount spanTokens w.identity.chunkTokens))
        (.runtime "the entry has another number of chunks")
      return chunks

/-- What a load stages: the slots, and the joined rows of each layer. -/
def Worker.stageLoad (w : Worker) (files : Disk) (plan : ReqPlan) :
    Except StoreError (List ℕ × (String → Bytes)) := do
  let chunks ← w.restoreChunks files plan.digest plan.spanTokens
  let positions ← ownedPositions plan.spanTokens w.identity.dcpDegree w.rank
  let slots ← localSlotsForPositions positions plan.blockIds w.blockSize w.identity.dcpDegree
  let rows := w.identity.chunkTokens / w.identity.dcpDegree
  let pieces ← assembleChunks w.layers positions rows 0 chunks
  return (slots, layerPayload pieces)

/-- `_load_one` of rows, without a native adapter: whether it succeeds, and the rows afterwards. A
load that fails also retires the entry. -/
def Worker.loadOne (w : Worker) (files : Disk) (rows : String → List Bytes) (plan : ReqPlan) :
    Bool × (String → List Bytes) :=
  match w.stageLoad files plan with
  | .error _ => (false, rows)
  | .ok (slots, payload) =>
      match writeLayers slots payload w.layers.plans rows with
      | (.error _, written) => (false, written)
      | (.ok (), written) => (true, written)

/-! ## Splitting -/

section Pieces
variable {layers : LayerPlans} {dcpDegree dcpRank rows : ℕ} {row : String → ℕ → Bytes}

/-- The pieces of a chunk that holds rows. -/
def piecesOf (layers : LayerPlans) (row : String → ℕ → Bytes) (start rows : ℕ) : List (String × Bytes) :=
  layers.recordKinds.flatMap fun kind =>
    (layersOf layers.plans kind).map fun plan => (plan.name, FixedRows.joined (row plan.name) start rows)

theorem unpackKinds_rows {c : ContextChunk} {start : ℕ} (hsized : RowsSized layers.plans row start rows)
    {kinds : List StateRecord} (hkinds : ∀ kind ∈ kinds, kind ∈ layers.recordKinds)
    (hrecords : ∀ kind ∈ kinds, c.records kind = some (recordBytes layers.plans kind row start rows)) :
    unpackKinds layers.plans c rows kinds = .ok (kinds.flatMap fun kind =>
      (layersOf layers.plans kind).map fun plan => (plan.name, FixedRows.joined (row plan.name) start rows)) := by
  induction kinds with
  | nil => rfl
  | cons kind rest ih =>
      rw [List.forall_mem_cons] at hkinds hrecords
      have hsplit := unpackRecord_rows hsized (LayerPlans.mem_recordKinds.mp hkinds.1)
      rw [unpackKinds, hrecords.1]
      show (unpackRecord layers.plans kind _ rows >>= fun _ => _) = _
      rw [hsplit]
      show (unpackKinds layers.plans c rows rest >>= _) = _
      rw [ih hkinds.2 hrecords.2]
      rfl

/-- A chunk of rows is split into its rows. -/
theorem HoldsRows.assembled {index : ℕ} {c : ContextChunk} (h : HoldsRows layers dcpDegree dcpRank rows row index c)
    (hsized : RowsSized layers.plans row (index * rows) rows) {count : ℕ} (hindex : index < count) :
    assembleChunk layers (positionsOf dcpDegree dcpRank 0 (count * rows)) rows index c =
      .ok (piecesOf layers row (index * rows) rows) := by
  obtain ⟨packed, hpacked, hpositions⟩ := h.positions
  have hcount : (index + 1) * rows - index * rows = rows := by
    rw [Nat.succ_mul, Nat.add_sub_cancel_left]
  have hwindow : ((positionsOf dcpDegree dcpRank 0 (count * rows)).drop (index * rows)).take
      ((index + 1) * rows - index * rows) = _ :=
    positionsOf_window (Nat.mul_le_mul_right rows (Nat.le_succ index))
      (Nat.mul_le_mul_right rows (Nat.succ_le_of_lt hindex))
  rw [hcount, Nat.zero_add] at hwindow
  unfold assembleChunk
  rw [hpositions, hcount, hwindow]
  show (unpackPositions packed >>= fun _ => _) = _
  rw [unpackPositions_packed hpacked]
  show (require _ _ >>= fun _ => _) = _
  rw [require_of rfl]
  exact unpackKinds_rows hsized (fun _ hkind => hkind) h.records

end Pieces

/-! ## Joining -/

theorem lookup_of_forall {entries : List (String × Bytes)} {name : String} {payload : Bytes}
    (hmem : (name, payload) ∈ entries) (hall : ∀ e ∈ entries, e.1 = name → e.2 = payload) :
    entries.lookup name = some payload := by
  induction entries with
  | nil => cases hmem
  | cons e rest ih =>
      rw [List.forall_mem_cons] at hall
      rw [List.lookup_cons]
      by_cases he : e.1 = name
      · rw [beq_iff_eq.mpr he.symm, ← hall.1 he]
      · have hne : (name, payload) ≠ e := fun heq => he (heq ▸ rfl)
        rw [beq_eq_false_iff_ne.mpr (Ne.symm he)]
        exact ih ((List.mem_cons.mp hmem).resolve_left hne) hall.2

/-- A layer is known by its name. -/
theorem LayerPlans.eq_of_name {layers : LayerPlans} {a b : LayerPlan} (ha : a ∈ layers.plans)
    (hb : b ∈ layers.plans) (h : a.name = b.name) : a = b := by
  have hfind := find?_name layers.nodup ha
  rw [h, find?_name layers.nodup hb] at hfind
  exact (Option.some.inj hfind).symm

theorem LayerPlans.kind_mem {layers : LayerPlans} {plan : LayerPlan} (h : plan ∈ layers.plans) :
    plan.recordKind ∈ layers.recordKinds :=
  mem_recordKinds.mpr (List.ne_nil_of_mem (mem_layersOf.mpr ⟨h, rfl⟩))

theorem piecesOf_lookup {layers : LayerPlans} {row : String → ℕ → Bytes} {start rows : ℕ} {plan : LayerPlan}
    (hplan : plan ∈ layers.plans) :
    (piecesOf layers row start rows).lookup plan.name = some (FixedRows.joined (row plan.name) start rows) := by
  apply lookup_of_forall
  · rw [piecesOf, List.mem_flatMap]
    exact ⟨plan.recordKind, LayerPlans.kind_mem hplan,
      List.mem_map.mpr ⟨plan, mem_layersOf.mpr ⟨hplan, rfl⟩, rfl⟩⟩
  · intro e he hname
    rw [piecesOf, List.mem_flatMap] at he
    obtain ⟨kind, -, he⟩ := he
    obtain ⟨other, hother, rfl⟩ := List.mem_map.mp he
    simp only at hname ⊢
    rw [hname]

/-- Chunks that hold consecutive rows are joined to these rows. -/
theorem assembleChunks_rows {layers : LayerPlans} {dcpDegree dcpRank rows count : ℕ} {row : String → ℕ → Bytes}
    {chunks : List ContextChunk} :
    ∀ {index : ℕ}, (∀ k c, chunks[k]? = some c → HoldsRows layers dcpDegree dcpRank rows row (index + k) c) →
      RowsSized layers.plans row (index * rows) (chunks.length * rows) → index + chunks.length ≤ count →
      ∃ pieces, assembleChunks layers (positionsOf dcpDegree dcpRank 0 (count * rows)) rows index chunks =
        .ok pieces ∧ ∀ plan ∈ layers.plans, layerPayload pieces plan.name =
          FixedRows.joined (row plan.name) (index * rows) (chunks.length * rows) := by
  induction chunks with
  | nil =>
      intro index _ _ _
      exact ⟨[], rfl, by simp [layerPayload]⟩
  | cons c rest ih =>
      intro index hchunks hsized hcount
      rw [List.length_cons] at hsized hcount
      have hfirst : HoldsRows layers dcpDegree dcpRank rows row index c := hchunks 0 c rfl
      have hassembled := hfirst.assembled
        (hsized.mono le_rfl (by rw [Nat.succ_mul]; omega)) (show index < count by omega)
      obtain ⟨pieces, hpieces, hpayload⟩ := ih
        (fun k c hk => by
          rw [show index + 1 + k = index + (k + 1) by omega]
          exact hchunks (k + 1) c hk)
        (hsized.mono (Nat.mul_le_mul_right rows (Nat.le_succ index)) (by
          rw [Nat.succ_mul, Nat.succ_mul]
          omega))
        (by omega)
      refine ⟨piecesOf layers row (index * rows) rows :: pieces, ?_, fun plan hplan => ?_⟩
      · rw [assembleChunks, hassembled]
        show (assembleChunks layers _ rows (index + 1) rest >>= _) = _
        rw [hpieces]
        rfl
      · rw [layerPayload, List.flatMap_cons, piecesOf_lookup hplan, Option.getD_some]
        show _ ++ layerPayload pieces plan.name = _
        rw [hpayload plan hplan, List.length_cons, Nat.succ_mul, Nat.succ_mul,
          Nat.add_comm (rest.length * rows), FixedRows.joined_add]

theorem assembleChunks_append {layers : LayerPlans} {positions : List ℕ} {rows : ℕ}
    {xs ys : List ContextChunk} :
    ∀ {index : ℕ} {as bs : List (List (String × Bytes))},
      assembleChunks layers positions rows index xs = .ok as →
      assembleChunks layers positions rows (index + xs.length) ys = .ok bs →
      assembleChunks layers positions rows index (xs ++ ys) = .ok (as ++ bs) := by
  induction xs with
  | nil =>
      intro index as bs hx hy
      cases hx
      exact hy
  | cons c rest ih =>
      intro index as bs hx hy
      simp only [assembleChunks, bind_eq_ok] at hx
      obtain ⟨pieces, hpieces, others, hothers, heq⟩ := hx
      cases heq
      rw [List.length_cons, show index + (rest.length + 1) = index + 1 + rest.length by omega] at hy
      rw [List.cons_append, assembleChunks, hpieces]
      show (assembleChunks layers positions rows (index + 1) (rest ++ ys) >>= _) = _
      rw [ih hothers hy]
      rfl

/-- Only the positions of the chunks matter. -/
theorem assembleChunks_congr {layers : LayerPlans} {positions positions' : List ℕ} {rows : ℕ}
    {chunks : List ContextChunk} :
    ∀ {index : ℕ}, (∀ k < index + chunks.length,
        (positions.drop (k * rows)).take ((k + 1) * rows - k * rows) =
          (positions'.drop (k * rows)).take ((k + 1) * rows - k * rows)) →
      assembleChunks layers positions rows index chunks = assembleChunks layers positions' rows index chunks := by
  induction chunks with
  | nil => exact fun _ => rfl
  | cons c rest ih =>
      intro index h
      rw [List.length_cons] at h
      have hfirst : assembleChunk layers positions rows index c = assembleChunk layers positions' rows index c := by
        unfold assembleChunk
        rw [h index (by omega)]
      have hrest : ∀ k < index + 1 + rest.length, _ := fun k hk => h k (by omega)
      rw [assembleChunks, assembleChunks, hfirst, ih hrest]

section Related
variable {α β : Type} {r : α → β → Prop} {xs : List α} {ys : List β} (h : List.Forall₂ r xs ys)
include h

theorem exists_of_mem_right {y : β} (hy : y ∈ ys) : ∃ x ∈ xs, r x y := by
  induction h with
  | nil => cases hy
  | cons hfirst _ ih =>
      obtain rfl | hy := List.mem_cons.mp hy
      · exact ⟨_, List.mem_cons_self, hfirst⟩
      · obtain ⟨x, hx, hr⟩ := ih hy
        exact ⟨x, List.mem_cons_of_mem _ hx, hr⟩

theorem exists_of_mem_left {x : α} (hx : x ∈ xs) : ∃ y ∈ ys, r x y :=
  exists_of_mem_right h.flip hx

end Related

theorem unpackKinds_eq_ok {plans : List LayerPlan} {c : ContextChunk} {rows : ℕ} {kinds : List StateRecord} :
    ∀ {split : List (String × Bytes)}, unpackKinds plans c rows kinds = .ok split →
      (∀ e ∈ split, ∃ plan ∈ plans, e.1 = plan.name ∧ e.2.length = plan.bytesPerToken * rows) ∧
      ∀ plan ∈ plans, plan.recordKind ∈ kinds → ∃ payload, (plan.name, payload) ∈ split := by
  induction kinds with
  | nil =>
      intro split h
      cases h
      exact ⟨by simp, by simp⟩
  | cons kind rest ih =>
      intro split h
      simp only [unpackKinds, bind_eq_ok] at h
      obtain ⟨payload, -, first, hfirst, others, hothers, heq⟩ := h
      cases heq
      obtain ⟨hwidths, hcovered⟩ := ih hothers
      obtain ⟨hpieces, -⟩ := unpackRecord_eq_ok hfirst
      constructor
      · intro e he
        obtain he | he := List.mem_append.mp he
        · obtain ⟨plan, hplan, hname, hlength⟩ := exists_of_mem_right hpieces he
          exact ⟨plan, (mem_layersOf.mp hplan).1, hname, hlength⟩
        · exact hwidths e he
      · intro plan hplan hkind
        by_cases hself : plan.recordKind = kind
        · obtain ⟨e, he, hname, -⟩ := exists_of_mem_left hpieces (mem_layersOf.mpr ⟨hplan, hself⟩)
          exact ⟨e.2, List.mem_append_left _ (hname ▸ he)⟩
        · obtain ⟨found, hfound⟩ := hcovered plan hplan ((List.mem_cons.mp hkind).resolve_left hself)
          exact ⟨found, List.mem_append_right _ hfound⟩

/-- Whatever is joined has a row for each token of each chunk. -/
theorem assembleChunks_length {layers : LayerPlans} {positions : List ℕ} {rows : ℕ}
    {chunks : List ContextChunk} :
    ∀ {index : ℕ} {pieces : List (List (String × Bytes))},
      assembleChunks layers positions rows index chunks = .ok pieces → ∀ plan ∈ layers.plans,
        (layerPayload pieces plan.name).length = chunks.length * rows * plan.bytesPerToken := by
  induction chunks with
  | nil =>
      intro index pieces h plan _
      cases h
      simp [layerPayload]
  | cons c rest ih =>
      intro index pieces h plan hplan
      simp only [assembleChunks, bind_eq_ok] at h
      obtain ⟨split, hsplit, others, hothers, heq⟩ := h
      cases heq
      unfold assembleChunk at hsplit
      simp only [bind_eq_ok] at hsplit
      obtain ⟨_, -, _, -, _, -, hsplit⟩ := hsplit
      obtain ⟨hwidths, hcovered⟩ := unpackKinds_eq_ok hsplit
      have hwidth : ∀ e ∈ split, e.1 = plan.name → e.2.length = plan.bytesPerToken * rows := by
        intro e he hname
        obtain ⟨other, hother, hother', hlength⟩ := hwidths e he
        rw [hlength, LayerPlans.eq_of_name hother hplan (hother'.symm.trans hname)]
      obtain ⟨payload, hpayload⟩ := hcovered plan hplan (LayerPlans.kind_mem hplan)
      have hfirst : ((split.lookup plan.name).getD []).length = plan.bytesPerToken * rows := by
        cases hlookup : split.lookup plan.name with
        | none =>
            rw [List.lookup_eq_none_iff] at hlookup
            simpa using hlookup _ hpayload
        | some found =>
            obtain ⟨before, after, hentries, -⟩ := List.lookup_eq_some_iff.mp hlookup
            exact hwidth (plan.name, found) (by rw [hentries]; simp) rfl
      rw [layerPayload, List.flatMap_cons, List.length_append, hfirst]
      show _ + (layerPayload others plan.name).length = _
      rw [ih hothers plan hplan, List.length_cons]
      ring

/-! ## Writing -/

/-- The rows of a layer after its staged rows are written. -/
def restoredRows (rows : List Bytes) (slots : List ℕ) (payload : Bytes) (width : ℕ) : List Bytes :=
  FixedRows.scatter rows (slots.zip ((List.range slots.length).map (FixedRows.rowAt width payload)))

theorem writeLayers_eq {slots : List ℕ} {payload : String → Bytes} {plans : List LayerPlan}
    (hnames : (plans.map LayerPlan.name).Nodup) :
    ∀ {rows : String → List Bytes},
      (∀ plan ∈ plans, (payload plan.name).length = slots.length * plan.bytesPerToken ∧
        ∀ slot ∈ slots, slot < (rows plan.name).length) →
      ∃ written, writeLayers slots payload plans rows = (.ok (), written) ∧
        (∀ plan ∈ plans, written plan.name =
          restoredRows (rows plan.name) slots (payload plan.name) plan.bytesPerToken) ∧
        ∀ name, name ∉ plans.map LayerPlan.name → written name = rows name := by
  induction plans with
  | nil =>
      intro rows _
      exact ⟨rows, rfl, by simp, by simp⟩
  | cons plan rest ih =>
      intro rows h
      rw [List.map_cons, List.nodup_cons] at hnames
      rw [List.forall_mem_cons] at h
      obtain ⟨⟨hlength, hslots⟩, hrest⟩ := h
      have hother : ∀ other ∈ rest, other.name ≠ plan.name :=
        fun other hmem heq => hnames.1 (heq ▸ List.mem_map_of_mem hmem)
      have hwritten : (stagedRows (payload plan.name) slots.length plan.bytesPerToken >>=
          writeRows (rows plan.name) slots) =
          .ok (restoredRows (rows plan.name) slots (payload plan.name) plan.bytesPerToken) := by
        unfold stagedRows writeRows
        rw [require_of hlength]
        show (require _ _ >>= fun _ => _) = _
        rw [require_of hslots]
        rfl
      have hnext : ∀ other ∈ rest, (payload other.name).length = slots.length * other.bytesPerToken ∧
          ∀ slot ∈ slots, slot < (Function.update rows plan.name (restoredRows (rows plan.name) slots
            (payload plan.name) plan.bytesPerToken) other.name).length := by
        intro other hmem
        rw [Function.update_of_ne (hother other hmem)]
        exact hrest other hmem
      obtain ⟨written, hrun, hlayers, hnone⟩ := ih hnames.2 hnext
      refine ⟨written, ?_, ?_, ?_⟩
      · rw [writeLayers, hwritten]
        exact hrun
      · rw [List.forall_mem_cons]
        refine ⟨?_, fun other hmem => ?_⟩
        · rw [hnone plan.name hnames.1, Function.update_self]
        · rw [hlayers other hmem, Function.update_of_ne (hother other hmem)]
      · intro name hname
        rw [List.map_cons, List.mem_cons, not_or] at hname
        rw [hnone name hname.2, Function.update_of_ne hname.1]

section Restored
variable {rows : List Bytes} {slots : List ℕ} {payload : Bytes} {width : ℕ}

theorem zip_rows_fst (slots : List ℕ) (payload : Bytes) (width : ℕ) :
    (slots.zip ((List.range slots.length).map (FixedRows.rowAt width payload))).map Prod.fst = slots :=
  List.map_fst_zip (by simp)

/-- Every slot gets its row. -/
theorem restoredRows_slot (hnodup : slots.Nodup) {k slot : ℕ} (hk : slots[k]? = some slot)
    (hslot : slot < rows.length) :
    (restoredRows rows slots payload width)[slot]? = some (FixedRows.rowAt width payload k) := by
  obtain ⟨hlt, hget⟩ := List.getElem?_eq_some_iff.mp hk
  refine FixedRows.scatter_of_mem (by rwa [zip_rows_fst]) ?_ hslot
  rw [List.mem_iff_getElem?]
  refine ⟨k, ?_⟩
  rw [List.getElem?_zip_eq_some]
  exact ⟨hk, by simp [hlt]⟩

/-- A row that is not at one of the slots stays. -/
theorem restoredRows_frame {slot : ℕ} (h : slot ∉ slots) :
    (restoredRows rows slots payload width)[slot]? = rows[slot]? :=
  FixedRows.scatter_of_notMem (by rwa [zip_rows_fst])

end Restored

end SparkCache.Rows
