import SparkCache.Json.Plain

/-!
# Cache identities

A `CacheIdentity` names a runtime configuration; the digest of its wire form is
the storage key under which its roots live. Manifests carry the wire form, and
`CacheIdentity(**wire)` checks it again; there the values have whatever types
the JSON text gave them.
-/
namespace SparkCache.Store

/-- What the store's operations raise. -/
inductive StoreError where
  /-- `CacheFormatError` -/
  | format (message : String)
  /-- The `CacheFormatError` of `_strict_keys` -/
  | fields (label : String)
  /-- `_IncompatibleManifestError` -/
  | incompatible (message : String)
  /-- `CommitConflict` -/
  | conflict (message : String)
  /-- `IncompleteEntry` -/
  | incomplete (message : String)
  | value (message : String)
  | runtime (message : String)
  /-- The `TypeError` of an operation on a value of another type. -/
  | type
  /-- The `KeyError` of a missing field. -/
  | key
  /-- `FileNotFoundError` -/
  | absent
  /-- Any other `OSError` -/
  | os
  /-- The `ValueError` of an integer that is too long for its decimal form. -/
  | digits
  /-- `struct.error` -/
  | packing
  /-- `OverflowError` -/
  | overflow
  deriving DecidableEq, Repr

/-- Python's `StateRecord`, in the order of the values. -/
inductive StateRecord where
  | boundaryHidden
  | logicalPositions
  | mtpDraftKv
  | sparseIndexer
  | targetCkv
  deriving DecidableEq, Repr

namespace StateRecord

def text : StateRecord → String
  | boundaryHidden => "boundary_hidden"
  | logicalPositions => "logical_positions"
  | mtpDraftKv => "mtp_draft_kv"
  | sparseIndexer => "sparse_indexer"
  | targetCkv => "target_ckv"

def all : List StateRecord :=
  [boundaryHidden, logicalPositions, mtpDraftKv, sparseIndexer, targetCkv]

/-- The position in the order of the values. -/
def rank (record : StateRecord) : ℕ := all.idxOf record

/-- `StateRecord(value)` -/
def ofJson? (value : Json) : Option StateRecord :=
  all.find? fun record => value = .str record.text

@[simp] theorem ofJson?_text (record : StateRecord) :
    ofJson? (.str record.text) = some record := by
  cases record <;> decide

theorem ofJson?_eq_some {value : Json} {record : StateRecord} (h : ofJson? value = some record) :
    value = .str record.text := by
  have hfound := List.find?_some h
  exact of_decide_eq_true hfound

end StateRecord

/-- `boundary_hidden_policy` -/
inductive BoundaryHiddenPolicy where
  | persisted
  | liveForward
  deriving DecidableEq, Repr

def BoundaryHiddenPolicy.text : BoundaryHiddenPolicy → String
  | persisted => "persisted"
  | liveForward => "live_forward"

/-- `draft_kv_policy` -/
inductive DraftKvPolicy where
  | separate
  | colocatedTarget
  deriving DecidableEq, Repr

def DraftKvPolicy.text : DraftKvPolicy → String
  | separate => "separate"
  | colocatedTarget => "colocated_target"

inductive PublicationSchema where
  | unnamed
  | tailCowV1
  | pageTailCowV1
  | pageTailCowV2
  | pageTailCowV3Fast
  | pageTailCowV3None
  deriving DecidableEq, Repr

namespace PublicationSchema

def text : PublicationSchema → String
  | unnamed => ""
  | tailCowV1 => "tail-cow-v1"
  | pageTailCowV1 => "page-tail-cow-v1"
  | pageTailCowV2 => "page-tail-cow-v2"
  | pageTailCowV3Fast => "page-tail-cow-v3-fast"
  | pageTailCowV3None => "page-tail-cow-v3-none"

def all : List PublicationSchema :=
  [unnamed, tailCowV1, pageTailCowV1, pageTailCowV2, pageTailCowV3Fast, pageTailCowV3None]

def ofJson? (value : Json) : Option PublicationSchema :=
  all.find? fun schema => value = .str schema.text

@[simp] theorem ofJson?_text (schema : PublicationSchema) :
    ofJson? (.str schema.text) = some schema := by
  cases schema <;> decide

/-- `_FLAT_PAGE_SCHEMAS` -/
def isFlatPage : PublicationSchema → Bool
  | pageTailCowV2 | pageTailCowV3Fast | pageTailCowV3None => true
  | _ => false

/-- `_PAGE_TAIL_SCHEMAS` -/
def isPageTail (schema : PublicationSchema) : Bool := schema = pageTailCowV1 || schema.isFlatPage

end PublicationSchema

/-- The records that the policies require. -/
def policyRecords (dropHidden dropDraft : Bool) : List StateRecord :=
  StateRecord.all.filter fun record =>
    !(dropHidden && record = .boundaryHidden) && !(dropDraft && record = .mtpDraftKv)

/-- What the store reads of an identity, whether a caller or a manifest supplies it. -/
structure IdentityView where
  wire : Json
  chunkTokens : ℕ
  publicationSchema : PublicationSchema
  requiredRecords : List StateRecord

/-- `storage_key` -/
def IdentityView.storageKey (identity : IdentityView) : Except StoreError Digest :=
  match canonicalJson? identity.wire with
  | some encoded => .ok (sha256 encoded)
  | none => .error .digits

/-- The entries of `to_wire` that an identity may omit. -/
def optionalFields (recordSchema : List StateRecord) (publicationSchema : PublicationSchema) :
    List (Str × Json) :=
  (if recordSchema = [] then []
    else [(("record_schema" : Str), Json.arr (recordSchema.map fun record => .str record.text))]) ++
  (if publicationSchema = .unnamed then []
    else [(("publication_schema" : Str), Json.str publicationSchema.text)])

structure CacheIdentity where
  targetCheckpoint : Digest
  draftCheckpoint : Digest
  quantizationLayout : String
  ropeLayout : String
  tpDegree : ℕ
  dcpDegree : ℕ
  cpKvCacheInterleaveSize : ℕ
  chunkTokens : ℕ
  dcpShardRank : ℤ
  tpShardRank : ℤ
  boundaryHiddenPolicy : BoundaryHiddenPolicy
  draftKvPolicy : DraftKvPolicy
  recordSchema : List StateRecord
  publicationSchema : PublicationSchema
  layouts : quantizationLayout ≠ "" ∧ ropeLayout ≠ ""
  degrees : 0 < tpDegree ∧ 0 < dcpDegree
  sizes : 0 < cpKvCacheInterleaveSize ∧ 0 < chunkTokens
  ranks : (-1 ≤ dcpShardRank ∧ dcpShardRank < dcpDegree) ∧
    (-1 ≤ tpShardRank ∧ tpShardRank < tpDegree)
  records : recordSchema.Nodup ∧ (recordSchema ≠ [] → .logicalPositions ∈ recordSchema)

namespace CacheIdentity

def wireFields (i : CacheIdentity) : List (Str × Json) :=
  [("target_checkpoint", i.targetCheckpoint.json), ("draft_checkpoint", i.draftCheckpoint.json),
    ("quantization_layout", .str i.quantizationLayout), ("rope_layout", .str i.ropeLayout),
    ("tp_degree", .int i.tpDegree), ("dcp_degree", .int i.dcpDegree),
    ("cp_kv_cache_interleave_size", .int i.cpKvCacheInterleaveSize),
    ("chunk_tokens", .int i.chunkTokens), ("dcp_shard_rank", .int i.dcpShardRank),
    ("tp_shard_rank", .int i.tpShardRank),
    ("boundary_hidden_policy", .str i.boundaryHiddenPolicy.text),
    ("draft_kv_policy", .str i.draftKvPolicy.text)]

def toWire (i : CacheIdentity) : Json :=
  .object (i.wireFields ++ optionalFields i.recordSchema i.publicationSchema)

def requiredRecords (i : CacheIdentity) : List StateRecord :=
  if i.recordSchema = [] then
    policyRecords (i.boundaryHiddenPolicy = .liveForward) (i.draftKvPolicy = .colocatedTarget)
  else i.recordSchema

def view (i : CacheIdentity) : IdentityView :=
  ⟨i.toWire, i.chunkTokens, i.publicationSchema, i.requiredRecords⟩

instance : Coe CacheIdentity IdentityView := ⟨view⟩

end CacheIdentity

/-! ## Identities on the wire -/

/-- `not value` -/
def isFalsy (value : Json) : Bool :=
  match value with
  | .null => true
  | .str s => s.codes.isEmpty
  | .arr items => items.isEmpty
  | .obj fields => fields.isEmpty
  | value => value.number? = some (.rational 0)

/-- `value <= 0`; none stands for the `TypeError` -/
def isNonPositive? (value : Json) : Option Bool :=
  value.number?.map fun
    | .rational q => q ≤ 0
    | .infinite negative => negative
    | .nan => false

/-- `-1 <= rank < degree` -/
def isRank? (rank degree : Json) : Option Bool :=
  match rank.number?, degree.number? with
  | some r, some d => some (match r, d with
      | .rational r, .rational d => -1 ≤ r ∧ r < d
      | .rational r, .infinite negative => -1 ≤ r ∧ negative = false
      | _, _ => false)
  | _, _ => none

/-- The records that `record_schema` lists; the items of a dictionary are its keys, and no
character is a record. -/
def listedRecords? (value : Json) : Option (List StateRecord) :=
  match value with
  | .arr items => items.mapM StateRecord.ofJson?
  | .obj fields => fields.mapM fun f => StateRecord.ofJson? (.str f.1)
  | _ => none

/-- The records of `record_schema`; a false value stands for none. -/
def recordSchema? (value : Json) : Option (List StateRecord) :=
  if isFalsy value then some [] else listedRecords? value

/-- The integer that a number equals. A `chunk_tokens` with a fraction is refused here. -/
def wholeNumber? (value : Json) : Option ℤ :=
  match value.number? with
  | some (.rational q) => if q.den = 1 then some q.num else none
  | _ => none

namespace IdentityView

def fieldNames : List Str :=
  ["target_checkpoint", "draft_checkpoint", "quantization_layout", "rope_layout", "tp_degree",
    "dcp_degree", "cp_kv_cache_interleave_size", "chunk_tokens", "dcp_shard_rank",
    "tp_shard_rank", "boundary_hidden_policy", "draft_kv_policy", "record_schema",
    "publication_schema"]

/-- `CacheIdentity(**wire)` of a dictionary; none stands for a `TypeError` or a `ValueError`. -/
def ofWire? (wire : Json) : Option IdentityView := do
  guard (wire.keys.all (· ∈ fieldNames))
  let target ← wire.get? "target_checkpoint"
  let draft ← wire.get? "draft_checkpoint"
  let quantization ← wire.get? "quantization_layout"
  let rope ← wire.get? "rope_layout"
  let tp ← wire.get? "tp_degree"
  let dcp ← wire.get? "dcp_degree"
  let interleave := (wire.get? "cp_kv_cache_interleave_size").getD (.int 1)
  let chunk := (wire.get? "chunk_tokens").getD (.int 256)
  let dcpRank := (wire.get? "dcp_shard_rank").getD (.int (-1))
  let tpRank := (wire.get? "tp_shard_rank").getD (.int (-1))
  let hidden := (wire.get? "boundary_hidden_policy").getD (.str "persisted")
  let draftKv := (wire.get? "draft_kv_policy").getD (.str "separate")
  let recordSchema := (wire.get? "record_schema").getD (.arr [])
  let publication ← PublicationSchema.ofJson? ((wire.get? "publication_schema").getD (.str ""))
  guard ((Hex.ofJson? target : Option Digest).isSome ∧ (Hex.ofJson? draft : Option Digest).isSome)
  guard (isFalsy quantization = false ∧ isFalsy rope = false)
  guard (∀ size ∈ [tp, dcp, interleave, chunk], isNonPositive? size = some false)
  guard (hidden = .str "persisted" ∨ hidden = .str "live_forward")
  guard (draftKv = .str "separate" ∨ draftKv = .str "colocated_target")
  guard (isRank? dcpRank dcp = some true ∧ isRank? tpRank tp = some true)
  let records ← recordSchema? recordSchema
  guard (records.Nodup ∧ (isFalsy recordSchema = true ∨ .logicalPositions ∈ records))
  let chunkTokens ← wholeNumber? chunk
  return {
    wire := .object (List.append
      [("target_checkpoint", target), ("draft_checkpoint", draft),
        ("quantization_layout", quantization), ("rope_layout", rope), ("tp_degree", tp),
        ("dcp_degree", dcp), ("cp_kv_cache_interleave_size", interleave), ("chunk_tokens", chunk),
        ("dcp_shard_rank", dcpRank), ("tp_shard_rank", tpRank),
        ("boundary_hidden_policy", hidden), ("draft_kv_policy", draftKv)]
      (optionalFields records publication))
    chunkTokens := chunkTokens.toNat
    publicationSchema := publication
    requiredRecords := if records = [] then
        policyRecords (hidden = .str "live_forward") (draftKv = .str "colocated_target")
      else records }

end IdentityView

/-! ## Typed identities -/

open Json

theorem IdentityView.ofWire?_chunkTokens {wire : Json} {view : IdentityView}
    (h : ofWire? wire = some view) :
    ∃ chunk c, chunk = (wire.get? "chunk_tokens").getD (.int 256) ∧ wholeNumber? chunk = some c ∧
      view.chunkTokens = c.toNat ∧ view.wire.get? "chunk_tokens" = some chunk := by
  unfold ofWire? at h
  simp only [Option.bind_eq_bind, Option.bind_eq_some_iff] at h
  obtain ⟨_, -, target, -, draft, -, quantization, -, rope, -, tp, -, dcp, -, publication, -, _, -, _, -,
    _, -, _, -, _, -, _, -, records, -, _, -, c, hc, h⟩ := h
  cases h
  refine ⟨_, c, rfl, hc, rfl, ?_⟩
  rw [Json.get?_object]
  · rfl
  · unfold optionalFields
    split <;> split <;> simp

theorem getField_append {κ α : Type} [LinearOrder κ] (key : κ) (xs ys : List (κ × α)) :
    getField key (xs ++ ys) = (getField key xs).or (getField key ys) := by
  induction xs with
  | nil => simp [getField]
  | cons f rest ih =>
      obtain ⟨k, v⟩ := f
      by_cases h : key = k
      · simp [getField, h]
      · simp [getField, h, ih]

theorem listedRecords?_text (records : List StateRecord) :
    listedRecords? (.arr (records.map fun record => .str record.text)) = some records := by
  induction records with
  | nil => rfl
  | cons record rest ih =>
      simp only [listedRecords?] at ih ⊢
      simp [ih]

theorem isFalsy_ofString {s : String} (h : s ≠ "") : isFalsy (.str (Str.ofString s)) = false := by
  have hlist : s.toList ≠ [] := fun hnil => h (String.toList_injective (by simpa using hnil))
  simp [isFalsy, Str.ofString, List.isEmpty_eq_false_iff, hlist]

theorem isNonPositive?_nat {n : ℕ} (h : 0 < n) : isNonPositive? (.int n) = some false := by
  simp [isNonPositive?, Json.number?]
  omega

theorem isRank?_int {r : ℤ} {degree : ℕ} (h : -1 ≤ r ∧ r < degree) :
    isRank? (.int r) (.int degree) = some true := by
  simp only [isRank?, Json.number?, Option.some.injEq, decide_eq_true_eq]
  exact ⟨by exact_mod_cast h.1, by exact_mod_cast h.2⟩

theorem wholeNumber?_int (n : ℤ) : wholeNumber? (.int n) = some n := by
  simp [wholeNumber?, Json.number?]

namespace CacheIdentity

theorem fields_nodup (i : CacheIdentity) :
    ((i.wireFields ++ optionalFields i.recordSchema i.publicationSchema).map Prod.fst).Nodup := by
  unfold wireFields optionalFields
  split <;> split <;> simp

theorem optionalFields_plain (records : List StateRecord) (schema : PublicationSchema) :
    ∀ f ∈ optionalFields records schema, f.1.encodable = true ∧ Json.Plain f.2 := by
  intro f hf
  unfold optionalFields at hf
  rcases List.mem_append.mp hf with hf | hf
  · split at hf
    · cases hf
    · rw [List.mem_singleton.mp hf]
      refine ⟨Str.encodable_ofString _, Json.plain_arr ?_⟩
      intro x hx
      obtain ⟨record, -, rfl⟩ := List.mem_map.mp hx
      exact Json.plain_str_ofString _
  · split at hf
    · cases hf
    · rw [List.mem_singleton.mp hf]
      exact ⟨Str.encodable_ofString _, Json.plain_str_ofString _⟩

theorem toWire_plain (i : CacheIdentity) : i.toWire.Plain := by
  apply Json.plain_object
  intro f hf
  rcases List.mem_append.mp hf with hf | hf
  · simp only [wireFields, List.mem_cons, List.not_mem_nil, or_false] at hf
    rcases hf with rfl | rfl | rfl | rfl | rfl | rfl | rfl | rfl | rfl | rfl | rfl | rfl <;>
      exact ⟨Str.encodable_ofString _, by simp⟩
  · exact optionalFields_plain _ _ f hf

theorem get?_toWire (i : CacheIdentity) (k : Str) : i.toWire.get? k =
    (getField k i.wireFields).or (getField k (optionalFields i.recordSchema i.publicationSchema)) := by
  rw [toWire, Json.get?_object i.fields_nodup, getField_append]

theorem get?_recordSchema (i : CacheIdentity) : i.toWire.get? "record_schema" =
    if i.recordSchema = [] then none
    else some (.arr (i.recordSchema.map fun record => .str record.text)) := by
  rw [get?_toWire]
  by_cases h : i.recordSchema = [] <;> by_cases h' : i.publicationSchema = .unnamed <;>
    simp [wireFields, optionalFields, getField, h, h']

theorem get?_publicationSchema (i : CacheIdentity) : i.toWire.get? "publication_schema" =
    if i.publicationSchema = .unnamed then none else some (.str i.publicationSchema.text) := by
  rw [get?_toWire]
  by_cases h : i.recordSchema = [] <;> by_cases h' : i.publicationSchema = .unnamed <;>
    simp [wireFields, optionalFields, getField, h, h']

theorem keys_toWire (i : CacheIdentity) {k : Str} (hk : k ∈ i.toWire.keys) :
    k ∈ IdentityView.fieldNames := by
  rw [toWire, Json.mem_keys_object, List.map_append, List.mem_append] at hk
  rcases hk with hk | hk
  · have hnames : i.wireFields.map Prod.fst = IdentityView.fieldNames.take 12 := rfl
    rw [hnames] at hk
    exact List.mem_of_mem_take hk
  · obtain ⟨f, hf, rfl⟩ := List.mem_map.mp hk
    unfold optionalFields at hf
    rcases List.mem_append.mp hf with hf | hf
    · split at hf
      · cases hf
      · rw [List.mem_singleton.mp hf]
        simp [IdentityView.fieldNames]
    · split at hf
      · cases hf
      · rw [List.mem_singleton.mp hf]
        simp [IdentityView.fieldNames]

theorem ofWire?_toWire (i : CacheIdentity) : IdentityView.ofWire? i.toWire = some i.view := by
  have hkeys : i.toWire.keys.all (· ∈ IdentityView.fieldNames) = true := by
    rw [List.all_eq_true]
    intro k hk
    exact decide_eq_true (i.keys_toWire hk)
  have hschema : PublicationSchema.ofJson? ((if i.publicationSchema = .unnamed then none
      else some (.str (Str.ofString i.publicationSchema.text))).getD (.str (Str.ofString ""))) =
      some i.publicationSchema := by
    cases i.publicationSchema <;> rfl
  have hlive : (i.boundaryHiddenPolicy.text = "live_forward") =
      (i.boundaryHiddenPolicy = .liveForward) := by
    cases i.boundaryHiddenPolicy <;> simp [BoundaryHiddenPolicy.text]
  have hcolocated : (i.draftKvPolicy.text = "colocated_target") =
      (i.draftKvPolicy = .colocatedTarget) := by
    cases i.draftKvPolicy <;> simp [DraftKvPolicy.text]
  have hhidden : i.boundaryHiddenPolicy.text = "persisted" ∨
      i.boundaryHiddenPolicy = .liveForward := by
    cases i.boundaryHiddenPolicy <;> simp [BoundaryHiddenPolicy.text]
  have hdraft : i.draftKvPolicy.text = "separate" ∨ i.draftKvPolicy = .colocatedTarget := by
    cases i.draftKvPolicy <;> simp [DraftKvPolicy.text]
  unfold IdentityView.ofWire?
  rw [hkeys, get?_recordSchema, get?_publicationSchema]
  simp only [i.get?_toWire, hschema]
  simp [wireFields, getField, isFalsy_ofString i.layouts.1, isFalsy_ofString i.layouts.2,
    isNonPositive?_nat i.degrees.1, isNonPositive?_nat i.degrees.2, isNonPositive?_nat i.sizes.1,
    isNonPositive?_nat i.sizes.2, isRank?_int i.ranks.1, isRank?_int i.ranks.2, wholeNumber?_int,
    hhidden, hdraft, hlive, hcolocated]
  by_cases hrecords : i.recordSchema = []
  · simp [hrecords, recordSchema?, isFalsy, view, toWire, wireFields, requiredRecords]
  · have hlogical := i.records.2 hrecords
    simp [hrecords, recordSchema?, isFalsy, view, toWire, wireFields, requiredRecords,
      listedRecords?_text,
      i.records.1, hlogical]

end CacheIdentity

/-- One rank, one token in a chunk, and the records of a page snapshot. -/
def tinyIdentity (schema : PublicationSchema) : CacheIdentity where
  targetCheckpoint := zeroDigest
  draftCheckpoint := zeroDigest
  quantizationLayout := "fp8"
  ropeLayout := "plain"
  tpDegree := 1
  dcpDegree := 1
  cpKvCacheInterleaveSize := 1
  chunkTokens := 1
  dcpShardRank := 0
  tpShardRank := 0
  boundaryHiddenPolicy := .persisted
  draftKvPolicy := .separate
  recordSchema := [.targetCkv, .logicalPositions]
  publicationSchema := schema
  layouts := by decide
  degrees := by decide
  sizes := by decide
  ranks := by decide
  records := by decide

end SparkCache.Store
