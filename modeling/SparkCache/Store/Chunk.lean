import Mathlib.Data.Fintype.Pi
import SparkCache.Pages.Snapshot
import SparkCache.Store.Identity

/-!
# Context chunks

The encoding of one chunk: a prefix, a canonical header that describes the
records, and the payloads in the order of the record names. The decoder takes
the header fields of any JSON type that `int` converts.
-/
namespace SparkCache.Store

open Pages (slice bind_eq_ok)
open Json (get? hasKeys isObject pyEq)

/-- A value that must be there. -/
def expect (value : Option α) (e : StoreError) : Except StoreError α :=
  match value with
  | some a => .ok a
  | none => .error e

@[simp] theorem expect_eq_ok {value : Option α} {e : StoreError} {a : α} :
    expect value e = .ok a ↔ value = some a := by
  cases value <;> simp [expect]

/-- `_canonical_json` -/
def dumpCanonical (value : Json) : Except StoreError Bytes := expect (canonicalJson? value) .digits

instance : Fintype StateRecord :=
  ⟨⟨StateRecord.all, by decide⟩, fun record => by cases record <;> decide⟩

structure ContextChunk where
  logicalStart : ℕ
  logicalEnd : ℕ
  records : StateRecord → Option Bytes
  ordered : logicalStart < logicalEnd
  payloads : ∀ kind, records kind ≠ some []
  carried : ∃ kind, records kind ≠ none
  deriving DecidableEq

namespace ContextChunk

theorem ext {a b : ContextChunk} (hstart : a.logicalStart = b.logicalStart)
    (hend : a.logicalEnd = b.logicalEnd) (hrecords : a.records = b.records) : a = b := by
  cases a
  cases b
  cases hstart
  cases hend
  cases hrecords
  rfl

/-- The records in the order of their names. -/
def entries (chunk : ContextChunk) : List (StateRecord × Bytes) :=
  StateRecord.all.filterMap fun kind => (chunk.records kind).map (kind, ·)

/-- `ContextChunk(...)` of records in the order in which they were supplied. -/
def of (logicalStart logicalEnd : ℤ) (supplied : List (StateRecord × Bytes)) :
    Except StoreError ContextChunk :=
  if h : 0 ≤ logicalStart ∧ logicalStart < logicalEnd then
    if hp : ∀ kind, supplied.lookup kind ≠ some [] then
      if hc : ∃ kind, supplied.lookup kind ≠ none then
        .ok ⟨logicalStart.toNat, logicalEnd.toNat, fun kind => supplied.lookup kind, by omega, hp, hc⟩
      else .error (.incomplete "cache chunk carries no records")
    else .error (.incomplete "payload must not be empty")
  else .error (.value "chunk logical range must be positive and ordered")

end ContextChunk

/-- `_require_complete_chunk` -/
def requireCompleteChunk (chunk : ContextChunk) (required : List StateRecord) :
    Except StoreError Unit :=
  require (∀ kind ∈ required, chunk.records kind ≠ none)
    (.incomplete "incomplete speculative cache chunk")

/-! ## Encoding -/

/-- `SPCKV001` -/
def chunkMagic : Bytes := [0x53, 0x50, 0x43, 0x4b, 0x56, 0x30, 0x30, 0x31]

def formatAbi : ℕ := 1

def recordJson (kind : StateRecord) (offset : ℕ) (payload : Bytes) : Json :=
  .object [("kind", .str kind.text), ("offset", .int offset), ("length", .int payload.length),
    ("sha256", (sha256 payload).json)]

/-- The record descriptors from an offset on. -/
def recordItems : ℕ → List (StateRecord × Bytes) → List Json
  | _, [] => []
  | offset, (kind, payload) :: rest =>
      recordJson kind offset payload :: recordItems (offset + payload.length) rest

def chunkHeaderJson (chunk : ContextChunk) : Json :=
  .object [("format_abi", .int formatAbi), ("logical_start", .int chunk.logicalStart),
    ("logical_end", .int chunk.logicalEnd), ("records", .arr (recordItems 0 chunk.entries))]

/-- `_encode_chunk` -/
def encodeChunk (chunk : ContextChunk) : Except StoreError Bytes := do
  let header ← dumpCanonical (chunkHeaderJson chunk)
  require (header.length < 256 ^ 4) .packing
  return chunkMagic ++ FixedWidth.little 4 formatAbi ++ FixedWidth.little 4 header.length ++ header ++
    chunk.entries.flatMap Prod.snd

/-! ## Decoding -/

/-- The white space that `int` strips. -/
def isSpaceCode (code : ℕ) : Bool :=
  (9 ≤ code ∧ code ≤ 13) ∨ (28 ≤ code ∧ code ≤ 32) ∨
    code ∈ [0x85, 0xa0, 0x1680, 0x2028, 0x2029, 0x202f, 0x205f, 0x3000] ∨
    (0x2000 ≤ code ∧ code ≤ 0x200a)

def stripSpace (codes : List ℕ) : List ℕ :=
  ((codes.dropWhile isSpaceCode).reverse.dropWhile isSpaceCode).reverse

/-- ASCII digits with single underscores between them. -/
def digitValues? : List ℕ → Option (List ℕ)
  | [] => none
  | [d] => if 48 ≤ d ∧ d ≤ 57 then some [d - 48] else none
  | d :: 95 :: rest =>
      if 48 ≤ d ∧ d ≤ 57 then (digitValues? rest).map ((d - 48) :: ·) else none
  | d :: rest => if 48 ≤ d ∧ d ≤ 57 then (digitValues? rest).map ((d - 48) :: ·) else none

/-- `int(text)`; digits outside ASCII are refused here. -/
def intOfText? (s : Str) : Option ℤ :=
  let (negative, digits) := match stripSpace s.codes with
    | 43 :: digits => (false, digits)
    | 45 :: digits => (true, digits)
    | digits => (false, digits)
  match digitValues? digits with
  | some values =>
      if Json.maxIntDigits < values.length then none
      else
        let value : ℕ := values.foldl (fun n d => 10 * n + d) 0
        some (if negative then -value else value)
  | none => none

/-- `int(value)` -/
def pyInt (value : Json) : Except StoreError ℤ :=
  match value with
  | .int n => .ok n
  | .bool b => .ok (if b then 1 else 0)
  | .float literal =>
      match Json.Number.ofLiteral literal with
      | .rational q => .ok (q.num.tdiv q.den)
      | .infinite _ => .error .overflow
      | .nan => .error (.value "cannot convert float NaN to integer")
  | .str s => expect (intOfText? s) (.value "invalid literal for int()")
  | _ => .error .type

/-- `except (TypeError, ValueError) as error: raise CacheFormatError(str(error))` -/
def asFormat (x : Except StoreError α) : Except StoreError α :=
  x.mapError fun
    | .value message => .format message
    | .incomplete message => .format message
    | .digits => .format "Exceeds the limit for integer string conversion"
    | .type => .format "TypeError"
    | e => e

/-- `except (ValueError, TypeError): raise CacheFormatError(message)` -/
def asInvalid (message : String) (x : Except StoreError α) : Except StoreError α :=
  x.mapError fun
    | .value _ | .incomplete _ | .format _ | .fields _ | .incompatible _ | .digits | .type =>
        .format message
    | e => e

theorem mapError_eq_ok {ε : Type} {x : Except ε α} {f : ε → StoreError} {a : α} :
    x.mapError f = .ok a ↔ x = .ok a := by
  cases x <;> simp [Except.mapError]

@[simp] theorem asFormat_eq_ok {x : Except StoreError α} {a : α} :
    asFormat x = .ok a ↔ x = .ok a :=
  mapError_eq_ok

@[simp] theorem asInvalid_eq_ok {message : String} {x : Except StoreError α} {a : α} :
    asInvalid message x = .ok a ↔ x = .ok a :=
  mapError_eq_ok

/-- `_strict_keys` -/
def strictKeys (value : Json) (expected : List Str) (label : String) : Except StoreError Unit :=
  require (value.hasKeys expected = true) (.fields label)

@[simp] theorem strictKeys_eq_ok {value : Json} {expected : List Str} {label : String} {u : Unit} :
    strictKeys value expected label = .ok u ↔ value.hasKeys expected = true :=
  require_eq_ok

/-- A field of a dictionary. -/
def field (value : Json) (key : Str) : Except StoreError Json := expect (value.get? key) .key

/-- The items of a list. -/
def listItems (value : Json) (e : StoreError) : Except StoreError (List Json) :=
  match value with
  | .arr items => .ok items
  | _ => .error e

@[simp] theorem listItems_eq_ok {value : Json} {e : StoreError} {items : List Json} :
    listItems value e = .ok items ↔ value = .arr items := by
  cases value <;> simp [listItems]

/-- `json.loads`, with the format failures under one message. -/
def loadJson (encoded : Bytes) (message : String) : Except StoreError Json :=
  (loads encoded).mapError fun
    | .unicode | .decode => .format message
    | .digits => .digits

/-- One record descriptor, and the bytes that it claims at the expected offset. -/
def decodeRecord (verify : Bool) (payload : Bytes) (expectedOffset : ℕ)
    (records : List (StateRecord × Bytes)) (item : Json) :
    Except StoreError (StateRecord × Bytes) := do
  require (item.isObject = true) (.format "record descriptor is not an object")
  strictKeys item ["kind", "offset", "length", "sha256"] "record"
  let kind ← expect (StateRecord.ofJson? (← field item "kind"))
    (.format "invalid record descriptor")
  let offset ← asInvalid "invalid record descriptor" (pyInt (← field item "offset"))
  let length ← asInvalid "invalid record descriptor" (pyInt (← field item "length"))
  require (records.lookup kind = none ∧ 0 ≤ offset ∧ 0 ≤ length ∧ offset = expectedOffset)
    (.format "duplicate or invalid record descriptor")
  let value := slice payload offset.toNat (offset + length).toNat
  require (value.length = length ∧
      (verify = true → pyEq (sha256 value).json (← field item "sha256") = true))
    (.format "record payload checksum mismatch")
  return (kind, value)

def decodeRecords (verify : Bool) (payload : Bytes) (expectedOffset : ℕ)
    (records : List (StateRecord × Bytes)) :
    List Json → Except StoreError (ℕ × List (StateRecord × Bytes))
  | [] => .ok (expectedOffset, records)
  | item :: rest => do
      let record ← decodeRecord verify payload expectedOffset records item
      decodeRecords verify payload (expectedOffset + record.2.length) (records ++ [record]) rest

/-- `_decode_chunk` -/
def decodeChunk (encoded : Bytes) (verifyRecordChecksums : Bool) :
    Except StoreError ContextChunk := do
  require (16 ≤ encoded.length) (.format "truncated chunk prefix")
  require (slice encoded 0 8 = chunkMagic ∧ FixedWidth.value (slice encoded 8 12) = formatAbi)
    (.format "unsupported chunk magic or ABI")
  let headerEnd := 16 + FixedWidth.value (slice encoded 12 16)
  require (headerEnd ≤ encoded.length) (.format "truncated chunk header")
  let header ← loadJson (slice encoded 16 headerEnd) "invalid chunk header"
  require (header.isObject = true) (.format "chunk header is not an object")
  strictKeys header ["format_abi", "logical_start", "logical_end", "records"] "chunk header"
  let items ← listItems (← field header "records") (.format "unsupported chunk header")
  require (pyEq (← field header "format_abi") (.int formatAbi) = true)
    (.format "unsupported chunk header")
  let payload := encoded.drop headerEnd
  let (claimed, records) ← decodeRecords verifyRecordChecksums payload 0 [] items
  require (claimed = payload.length) (.format "chunk payload contains unclaimed bytes")
  asFormat do
    ContextChunk.of (← pyInt (← field header "logical_start"))
      (← pyInt (← field header "logical_end")) records

/-! ## Round trip -/

theorem lookup_filterMap (records : StateRecord → Option Bytes) (kinds : List StateRecord)
    (kind : StateRecord) :
    (kinds.filterMap fun k => (records k).map (k, ·)).lookup kind =
      if kind ∈ kinds then records kind else none := by
  induction kinds with
  | nil => rfl
  | cons k rest ih =>
      by_cases hk : kind = k
      · subst hk
        cases hrecord : records kind with
        | none => simp [hrecord, ih]
        | some payload => simp [hrecord]
      · have hne : (kind == k) = false := beq_eq_false_iff_ne.mpr hk
        cases hrecord : records k with
        | none => simp [hrecord, ih, hk]
        | some payload => simp [hrecord, List.lookup_cons, hne, ih, hk]

namespace ContextChunk

@[simp] theorem lookup_entries (chunk : ContextChunk) (kind : StateRecord) :
    chunk.entries.lookup kind = chunk.records kind := by
  have hall : kind ∈ StateRecord.all := by cases kind <;> decide
  rw [entries, lookup_filterMap, if_pos hall]

theorem entries_nodup (chunk : ContextChunk) : (chunk.entries.map Prod.fst).Nodup := by
  have hsub : (chunk.entries.map Prod.fst).Sublist StateRecord.all := by
    unfold entries
    generalize StateRecord.all = kinds
    induction kinds with
    | nil => exact List.Sublist.refl _
    | cons k rest ih =>
        cases hrecord : chunk.records k with
        | none => simpa [hrecord] using ih.cons k
        | some payload => simpa [hrecord] using ih
  exact hsub.nodup (by decide)

theorem of_entries (chunk : ContextChunk) :
    of chunk.logicalStart chunk.logicalEnd chunk.entries = .ok chunk := by
  unfold of
  have hrange : (0 : ℤ) ≤ chunk.logicalStart ∧ (chunk.logicalStart : ℤ) < chunk.logicalEnd := by
    have := chunk.ordered
    omega
  have hpayloads : ∀ kind, chunk.entries.lookup kind ≠ some [] := by
    simpa using chunk.payloads
  have hcarried : ∃ kind, chunk.entries.lookup kind ≠ none := by
    simpa using chunk.carried
  rw [dif_pos hrange, dif_pos hpayloads, dif_pos hcarried]
  simp

end ContextChunk

theorem recordJson_field (kind : StateRecord) (offset : ℕ) (payload : Bytes) (key : Str) :
    (recordJson kind offset payload).get? key =
      getField key [("kind", .str kind.text), ("offset", .int offset),
        ("length", .int payload.length), ("sha256", (sha256 payload).json)] :=
  Json.get?_object (by simp) key

theorem recordJson_keys (kind : StateRecord) (offset : ℕ) (payload : Bytes) :
    (recordJson kind offset payload).hasKeys ["kind", "offset", "length", "sha256"] = true := by
  simp [recordJson, Json.hasKeys_object]

theorem recordJson_plain (kind : StateRecord) (offset : ℕ) (payload : Bytes) :
    (recordJson kind offset payload).Plain := by
  apply Json.plain_object
  simp

theorem decodeRecord_recordJson (verify : Bool) {payload value rest : Bytes} {offset : ℕ}
    {kind : StateRecord} {records : List (StateRecord × Bytes)}
    (hpayload : payload.drop offset = value ++ rest) (hfresh : records.lookup kind = none) :
    decodeRecord verify payload offset records (recordJson kind offset value) =
      .ok (kind, value) := by
  have hslice : slice payload offset (offset + value.length) = value := by
    rw [slice, hpayload, Nat.add_sub_cancel_left]
    exact List.take_left
  have hstop : ((offset : ℤ) + (value.length : ℤ)).toNat = offset + value.length := by omega
  unfold decodeRecord
  simp only [bind_eq_ok, require_eq_ok, expect_eq_ok, strictKeys_eq_ok, field, recordJson_field]
  refine ⟨(), rfl, (), recordJson_keys kind offset value, .str kind.text, by simp [getField],
    kind, by simp, .int offset, by simp [getField], offset, rfl, .int value.length,
    by simp [getField], value.length, rfl, (), ⟨hfresh, by omega, by omega, rfl⟩,
    (sha256 value).json, by simp [getField], (), ?_, ?_⟩
  · rw [Int.toNat_natCast, hstop, hslice]
    exact ⟨rfl, fun _ => by simp [Hex.json]⟩
  · rw [Int.toNat_natCast, hstop, hslice]
    rfl

/-- Reading back the descriptors of records, after other records. -/
theorem decodeRecords_recordItems (verify : Bool) {payload : Bytes}
    (entries : List (StateRecord × Bytes)) :
    ∀ (offset : ℕ) (records : List (StateRecord × Bytes)),
      payload.drop offset = entries.flatMap Prod.snd →
      ((records ++ entries).map Prod.fst).Nodup →
      decodeRecords verify payload offset records (recordItems offset entries) =
        .ok (offset + (entries.flatMap Prod.snd).length, records ++ entries) := by
  induction entries with
  | nil =>
      intro offset records _ _
      simp [recordItems, decodeRecords]
  | cons entry rest ih =>
      intro offset records hpayload hnodup
      obtain ⟨kind, value⟩ := entry
      have hfresh : records.lookup kind = none := by
        rw [List.lookup_eq_none_iff]
        intro p hp
        rw [bne_iff_ne]
        rintro rfl
        rw [List.map_append, List.nodup_append] at hnodup
        exact hnodup.2.2 p.1 (List.mem_map_of_mem hp) p.1 (by simp) rfl
      have hdrop : payload.drop (offset + value.length) = rest.flatMap Prod.snd := by
        rw [← List.drop_drop, hpayload, List.flatMap_cons]
        exact List.drop_left
      rw [recordItems, decodeRecords, decodeRecord_recordJson verify hpayload hfresh]
      show decodeRecords verify payload (offset + value.length) (records ++ [(kind, value)])
        (recordItems (offset + value.length) rest) = _
      rw [ih _ _ hdrop (by simpa using hnodup)]
      simp [List.flatMap_cons, Nat.add_assoc]

theorem chunkHeaderJson_field (chunk : ContextChunk) (key : Str) :
    (chunkHeaderJson chunk).get? key =
      getField key [("format_abi", .int formatAbi), ("logical_start", .int chunk.logicalStart),
        ("logical_end", .int chunk.logicalEnd),
        ("records", .arr (recordItems 0 chunk.entries))] :=
  Json.get?_object (by simp) key

theorem recordItems_plain (entries : List (StateRecord × Bytes)) :
    ∀ offset, ∀ item ∈ recordItems offset entries, item.Plain := by
  induction entries with
  | nil => simp [recordItems]
  | cons entry rest ih =>
      intro offset item hitem
      rcases List.mem_cons.mp hitem with rfl | hitem
      · exact recordJson_plain _ _ _
      · exact ih _ item hitem

theorem chunkHeaderJson_plain (chunk : ContextChunk) : (chunkHeaderJson chunk).Plain := by
  apply Json.plain_object
  simp only [List.mem_cons, List.not_mem_nil, or_false, forall_eq_or_imp, forall_eq,
    Str.encodable_ofString, true_and, Json.plain_int]
  exact Json.plain_arr (recordItems_plain _ 0)

theorem dumpCanonical_eq_ok {v : Json} {encoded : Bytes} :
    dumpCanonical v = .ok encoded ↔ canonicalJson? v = some encoded :=
  expect_eq_ok

theorem loadJson_dumped {v : Json} {encoded : Bytes} (hv : v.Plain)
    (h : dumpCanonical v = .ok encoded) (message : String) : loadJson encoded message = .ok v := by
  rw [loadJson, (hv.loads (dumpCanonical_eq_ok.mp h)).2.2]
  rfl

theorem decodeChunk_encodeChunk {chunk : ContextChunk} {encoded : Bytes}
    (h : encodeChunk chunk = .ok encoded) (verify : Bool) :
    decodeChunk encoded verify = .ok chunk := by
  unfold encodeChunk at h
  simp only [bind_eq_ok, require_eq_ok] at h
  obtain ⟨header, hheader, -, hlt, h⟩ := h
  have hload := loadJson_dumped (chunkHeaderJson_plain chunk) hheader "invalid chunk header"
  cases h
  have habi : (FixedWidth.little 4 formatAbi).length = 4 := FixedWidth.little_length 4 _
  have hwidth : (FixedWidth.little 4 header.length).length = 4 := FixedWidth.little_length 4 _
  have hmagic : chunkMagic.length = 8 := rfl
  generalize hbody : chunk.entries.flatMap Prod.snd = body at *
  have hlength : (chunkMagic ++ FixedWidth.little 4 formatAbi ++
      FixedWidth.little 4 header.length ++ header ++ body).length =
        16 + header.length + body.length := by
    simp only [List.length_append, habi, hwidth, hmagic]
  have hfirst : slice (chunkMagic ++ FixedWidth.little 4 formatAbi ++
      FixedWidth.little 4 header.length ++ header ++ body) 0 8 = chunkMagic := by
    simp only [slice, List.append_assoc, List.drop_zero]
    exact List.take_left' hmagic
  have hsecond : slice (chunkMagic ++ FixedWidth.little 4 formatAbi ++
      FixedWidth.little 4 header.length ++ header ++ body) 8 12 = FixedWidth.little 4 formatAbi := by
    simp only [slice, List.append_assoc]
    rw [List.drop_left' hmagic]
    exact List.take_left' habi
  have hthird : slice (chunkMagic ++ FixedWidth.little 4 formatAbi ++
      FixedWidth.little 4 header.length ++ header ++ body) 12 16 =
        FixedWidth.little 4 header.length := by
    have htwelve : (chunkMagic ++ FixedWidth.little 4 formatAbi).length = 12 := by
      rw [List.length_append, habi, hmagic]
    rw [slice, List.append_assoc, List.append_assoc, List.drop_left' htwelve]
    exact List.take_left' hwidth
  have hsixteen : (chunkMagic ++ FixedWidth.little 4 formatAbi ++
      FixedWidth.little 4 header.length).length = 16 := by
    simp only [List.length_append, habi, hwidth, hmagic]
  have hslice : slice (chunkMagic ++ FixedWidth.little 4 formatAbi ++
      FixedWidth.little 4 header.length ++ header ++ body) 16 (16 + header.length) = header := by
    rw [slice, List.append_assoc (_ ++ _), List.drop_left' hsixteen, Nat.add_sub_cancel_left]
    exact List.take_left
  have hdrop : (chunkMagic ++ FixedWidth.little 4 formatAbi ++
      FixedWidth.little 4 header.length ++ header ++ body).drop (16 + header.length) = body := by
    exact List.drop_left' (by rw [List.length_append, hsixteen])
  have hrecords : decodeRecords verify body 0 [] (recordItems 0 chunk.entries) = _ :=
    decodeRecords_recordItems verify chunk.entries 0 [] (by rw [hbody]; rfl)
      (by simpa using chunk.entries_nodup)
  unfold decodeChunk
  simp only [bind_eq_ok, require_eq_ok, expect_eq_ok, strictKeys_eq_ok, field, chunkHeaderJson_field,
    hfirst, hsecond, hthird, FixedWidth.value_little 4 _ hlt, hlength, hslice, hload, hdrop,
    true_and, Except.ok.injEq, exists_eq_left', listItems_eq_ok]
  refine ⟨(), by omega, (), FixedWidth.value_little 4 _ (by decide), (), by omega, (), rfl, (), ?_,
    .arr (recordItems 0 chunk.entries), by simp [getField], recordItems 0 chunk.entries, rfl,
    .int formatAbi, by simp [getField], (), by simp, _, hrecords, (), ?_, ?_⟩
  · simp [chunkHeaderJson, Json.hasKeys_object]
  · rw [hbody]
    simp
  · simp only [asFormat_eq_ok, bind_eq_ok, expect_eq_ok]
    exact ⟨.int chunk.logicalStart, by simp [getField], chunk.logicalStart, rfl,
      .int chunk.logicalEnd, by simp [getField], chunk.logicalEnd, rfl, chunk.of_entries⟩

/-- The chunk of one token. -/
def tinyChunk (token : ℕ) : ContextChunk where
  logicalStart := token
  logicalEnd := token + 1
  records kind := if kind = .targetCkv ∨ kind = .logicalPositions then some [token.toUInt8] else none
  ordered := by omega
  payloads kind := by
    by_cases h : kind = .targetCkv ∨ kind = .logicalPositions <;> simp [h]
  carried := ⟨.targetCkv, by simp⟩

end SparkCache.Store
