import Mathlib.Data.List.Lex
import Mathlib.Tactic

/-!
# JSON values

Values of the `json` module as the decoder returns them. A string keeps its
Unicode code points, because an escape may name a lone surrogate. An object is
a finite map and is stored sorted by key: every encoder of interest sorts keys,
so insertion order is never observed. A number with a fraction or an exponent
keeps its literal text and is not interpreted.
-/
namespace SparkCache

/-- A Python `str`: a sequence of code points, lone surrogates included. -/
structure Str where
  codes : List ℕ
  deriving DecidableEq, Repr

namespace Str

def ofString (s : String) : Str := ⟨s.toList.map Char.toNat⟩

instance : Coe String Str := ⟨ofString⟩

theorem ofString_injective : Function.Injective ofString := by
  intro a b h
  have hc : a.toList.map Char.toNat = b.toList.map Char.toNat := congrArg Str.codes h
  have hl : a.toList = b.toList := List.map_injective_iff.mpr
    (fun x y hxy => Char.toNat_inj.mp hxy) hc
  exact String.toList_inj.mp hl

@[simp] theorem ofString_inj {a b : String} : ofString a = ofString b ↔ a = b :=
  ofString_injective.eq_iff

theorem codes_injective : Function.Injective codes := by
  rintro ⟨a⟩ ⟨b⟩ h
  simpa using h

/-- Keys are ordered by code points, as `sort_keys` orders them. -/
instance : LinearOrder Str := LinearOrder.lift' codes codes_injective

/-- A code point that UTF-8 can carry. -/
def isScalar (code : ℕ) : Bool := code < 0xd800 || (0xe000 ≤ code && code < 0x110000)

/-- The string survives `.encode("utf-8")`. -/
def encodable (s : Str) : Bool := s.codes.all isScalar

theorem isScalar_toNat (c : Char) : isScalar c.toNat = true := by
  have h : c.toNat.isValidChar := c.valid
  simp only [Nat.isValidChar] at h
  simp only [isScalar, Bool.or_eq_true, decide_eq_true_eq, Bool.and_eq_true]
  omega

@[simp] theorem encodable_ofString (s : String) : (ofString s).encodable = true := by
  simp only [encodable, ofString, List.all_map, List.all_eq_true, Function.comp_apply]
  exact fun c _ => isScalar_toNat c

end Str

inductive Json where
  | null
  | bool (value : Bool)
  | int (value : ℤ)
  | float (literal : List Char)
  | str (value : Str)
  | arr (items : List Json)
  | obj (fields : List (Str × Json))
  deriving Repr, Inhabited

namespace Json

mutual
def decEq : (a b : Json) → Decidable (a = b)
  | .null, .null => isTrue rfl
  | .bool a, .bool b => decidable_of_iff (a = b) (by simp)
  | .int a, .int b => decidable_of_iff (a = b) (by simp)
  | .float a, .float b => decidable_of_iff (a = b) (by simp)
  | .str a, .str b => decidable_of_iff (a = b) (by simp)
  | .arr a, .arr b => @decidable_of_iff _ (a = b) (by simp) (decEqItems a b)
  | .obj a, .obj b => @decidable_of_iff _ (a = b) (by simp) (decEqFields a b)
  | .null, .bool _ | .null, .int _ | .null, .float _ | .null, .str _ | .null, .arr _
  | .null, .obj _ | .bool _, .null | .bool _, .int _ | .bool _, .float _ | .bool _, .str _
  | .bool _, .arr _ | .bool _, .obj _ | .int _, .null | .int _, .bool _ | .int _, .float _
  | .int _, .str _ | .int _, .arr _ | .int _, .obj _ | .float _, .null | .float _, .bool _
  | .float _, .int _ | .float _, .str _ | .float _, .arr _ | .float _, .obj _ | .str _, .null
  | .str _, .bool _ | .str _, .int _ | .str _, .float _ | .str _, .arr _ | .str _, .obj _
  | .arr _, .null | .arr _, .bool _ | .arr _, .int _ | .arr _, .float _ | .arr _, .str _
  | .arr _, .obj _ | .obj _, .null | .obj _, .bool _ | .obj _, .int _ | .obj _, .float _
  | .obj _, .str _ | .obj _, .arr _ => isFalse (by simp)

def decEqItems : (a b : List Json) → Decidable (a = b)
  | [], [] => isTrue rfl
  | x :: xs, y :: ys =>
      @decidable_of_iff _ (x = y ∧ xs = ys) (by simp)
        (@instDecidableAnd _ _ (decEq x y) (decEqItems xs ys))
  | [], _ :: _ | _ :: _, [] => isFalse (by simp)

def decEqFields : (a b : List (Str × Json)) → Decidable (a = b)
  | [], [] => isTrue rfl
  | (k, x) :: xs, (l, y) :: ys =>
      @decidable_of_iff _ (k = l ∧ x = y ∧ xs = ys) (by simp [and_assoc])
        (@instDecidableAnd _ _ _ (@instDecidableAnd _ _ (decEq x y) (decEqFields xs ys)))
  | [], _ :: _ | _ :: _, [] => isFalse (by simp)
end

instance : DecidableEq Json := decEq

end Json

/-! ## Fields sorted by key -/

section Fields
variable {κ α : Type*} [LinearOrder κ]

/-- `d[key] = value` on a dictionary stored sorted by key. -/
def setField (key : κ) (value : α) : List (κ × α) → List (κ × α)
  | [] => [(key, value)]
  | (k, v) :: rest =>
      if key = k then (key, value) :: rest
      else if key < k then (key, value) :: (k, v) :: rest
      else (k, v) :: setField key value rest

/-- `d.get(key)`. -/
def getField (key : κ) : List (κ × α) → Option α
  | [] => none
  | (k, v) :: rest => if key = k then some v else getField key rest

@[simp] theorem getField_setField (key k : κ) (value : α) (fields : List (κ × α)) :
    getField k (setField key value fields) =
      if k = key then some value else getField k fields := by
  induction fields with
  | nil => simp [setField, getField]
  | cons f rest ih =>
      obtain ⟨k', v⟩ := f
      by_cases hk : k = key
      · subst hk
        simp only [setField]
        split_ifs with h hlt
        · simp [getField]
        · simp [getField]
        · simp [getField, h, ih]
      · simp only [setField]
        split_ifs with h hlt
        · simp [getField, hk, ← h]
        · simp [getField, hk]
        · simp [getField, ih, hk]

theorem getField_isSome (key : κ) (fields : List (κ × α)) :
    (getField key fields).isSome ↔ key ∈ fields.map Prod.fst := by
  induction fields with
  | nil => simp [getField]
  | cons f rest ih =>
      obtain ⟨k, v⟩ := f
      by_cases h : key = k
      · simp [getField, h]
      · simpa [getField, h] using ih

@[simp] theorem mem_keys_setField (key k : κ) (value : α) (fields : List (κ × α)) :
    k ∈ (setField key value fields).map Prod.fst ↔ k = key ∨ k ∈ fields.map Prod.fst := by
  induction fields with
  | nil => simp [setField]
  | cons f rest ih =>
      obtain ⟨k', v⟩ := f
      simp only [setField]
      split_ifs with h hlt
      · subst h; simp
      · simp
      · simp only [List.map_cons, List.mem_cons, ih]; tauto

theorem setField_sorted (key : κ) (value : α) (fields : List (κ × α))
    (h : (fields.map Prod.fst).Pairwise (· < ·)) :
    ((setField key value fields).map Prod.fst).Pairwise (· < ·) := by
  induction fields with
  | nil => simp [setField]
  | cons f rest ih =>
      obtain ⟨k', v⟩ := f
      simp only [List.map_cons, List.pairwise_cons] at h
      simp only [setField]
      split_ifs with heq hlt
      · subst heq
        simpa using h
      · simp only [List.map_cons, List.pairwise_cons, List.mem_cons]
        refine ⟨?_, h⟩
        rintro a (rfl | ha)
        · exact hlt
        · exact hlt.trans (h.1 a ha)
      · have hk : k' < key := lt_of_le_of_ne (not_lt.mp hlt) (Ne.symm heq)
        simp only [List.map_cons, List.pairwise_cons]
        refine ⟨?_, ih h.2⟩
        intro a ha
        rcases (mem_keys_setField key a value rest).mp ha with rfl | ha
        · exact hk
        · exact h.1 a ha

theorem setField_append_of_lt (key : κ) (value : α) (fields : List (κ × α))
    (h : ∀ k ∈ fields.map Prod.fst, k < key) :
    setField key value fields = fields ++ [(key, value)] := by
  induction fields with
  | nil => rfl
  | cons f rest ih =>
      obtain ⟨k, v⟩ := f
      have hk : k < key := h k (by simp)
      rw [setField, if_neg hk.ne', if_neg hk.not_gt, ih (fun a ha => h a (by simp [ha]))]
      rfl

/-- Building a dictionary from fields that are already sorted keeps them. -/
theorem foldl_setField_of_sorted (fields : List (κ × α)) :
    ∀ before : List (κ × α), ((before ++ fields).map Prod.fst).Pairwise (· < ·) →
      fields.foldl (fun d f => setField f.1 f.2 d) before = before ++ fields := by
  induction fields with
  | nil => simp
  | cons f rest ih =>
      intro before h
      obtain ⟨k, v⟩ := f
      have hlt : ∀ a ∈ before.map Prod.fst, a < k := by
        intro a ha
        rw [List.map_append, List.pairwise_append] at h
        exact h.2.2 a ha k (by simp)
      rw [List.foldl_cons, setField_append_of_lt k v before hlt, ih]
      · simp
      · simpa using h

theorem foldl_setField_sorted (fields before : List (κ × α))
    (h : (before.map Prod.fst).Pairwise (· < ·)) :
    ((fields.foldl (fun d f => setField f.1 f.2 d) before).map Prod.fst).Pairwise (· < ·) := by
  induction fields generalizing before with
  | nil => simpa
  | cons f rest ih => exact ih _ (setField_sorted f.1 f.2 before h)

end Fields

namespace Json

/-- A dictionary display: later fields replace earlier ones of the same key. -/
def object (fields : List (Str × Json)) : Json :=
  .obj (fields.foldl (fun d f => setField f.1 f.2 d) [])

/-- The items of a list of counts. -/
def nats (values : List ℕ) : List Json := values.map fun n : ℕ => .int n

/-- `value.get(key)`; anything but a dictionary has no fields. -/
def get? (value : Json) (key : Str) : Option Json :=
  match value with
  | .obj fields => getField key fields
  | _ => none

/-- `set(value)` of a dictionary. -/
def keys : Json → List Str
  | .obj fields => fields.map Prod.fst
  | _ => []

/-- `set(value) == expected`. -/
def hasKeys (value : Json) (expected : List Str) : Bool :=
  expected.all (· ∈ value.keys) && value.keys.all (· ∈ expected)

/-- The value if its type is exactly `int`. -/
def int? : Json → Option ℤ
  | .int n => some n
  | _ => none

/-- The items of a list of values whose types are exactly `int`. -/
def ints? : Json → Option (List ℤ)
  | .arr items => items.mapM int?
  | _ => none

def isObject : Json → Bool
  | .obj _ => true
  | _ => false

/-- Python's default bound on the digits of an integer literal, both ways. -/
@[irreducible]
def maxIntDigits : ℕ := 4300

/-! A value is normal when its strings can be encoded, no number is a float or too long
to print and every object is sorted by distinct keys. -/
mutual
def Normal : Json → Prop
  | .null | .bool _ => True
  | .int n => n.natAbs < 10 ^ maxIntDigits
  | .float _ => False
  | .str s => s.encodable
  | .arr items => NormalItems items
  | .obj fields => (fields.map Prod.fst).Pairwise (· < ·) ∧ NormalFields fields

def NormalItems : List Json → Prop
  | [] => True
  | x :: xs => Normal x ∧ NormalItems xs

def NormalFields : List (Str × Json) → Prop
  | [] => True
  | (k, x) :: xs => k.encodable ∧ Normal x ∧ NormalFields xs
end

/-! `json.dumps` fails on an integer that is too long. -/
mutual
def printable : Json → Bool
  | .int n => n.natAbs < 10 ^ maxIntDigits
  | .arr items => printableItems items
  | .obj fields => printableFields fields
  | _ => true

def printableItems : List Json → Bool
  | [] => true
  | x :: xs => printable x && printableItems xs

def printableFields : List (Str × Json) → Bool
  | [] => true
  | (_, x) :: xs => printable x && printableFields xs
end

mutual
theorem Normal.printable : (v : Json) → v.Normal → v.printable = true
  | .null, _ | .bool _, _ | .str _, _ => by simp [Json.printable]
  | .float _, h => by simp [Normal] at h
  | .int n, h => by simpa [Json.printable, Normal] using h
  | .arr items, h => by simpa [Json.printable] using NormalItems.printable items h
  | .obj fields, h => by simpa [Json.printable] using NormalFields.printable fields h.2

theorem NormalItems.printable : (items : List Json) → NormalItems items →
    printableItems items = true
  | [], _ => rfl
  | x :: xs, h => by
      simp [printableItems, Normal.printable x h.1, NormalItems.printable xs h.2]

theorem NormalFields.printable : (fields : List (Str × Json)) → NormalFields fields →
    printableFields fields = true
  | [], _ => rfl
  | (_, x) :: xs, h => by
      simp [printableFields, Normal.printable x h.2.1, NormalFields.printable xs h.2.2]
end

theorem printableFields_iff (fields : List (Str × Json)) :
    printableFields fields = true ↔ ∀ f ∈ fields, f.2.printable = true := by
  induction fields with
  | nil => simp [printableFields]
  | cons f rest ih =>
      obtain ⟨k, x⟩ := f
      simp [printableFields, ih]

theorem printableItems_iff (items : List Json) :
    printableItems items = true ↔ ∀ x ∈ items, x.printable = true := by
  induction items with
  | nil => simp [printableItems]
  | cons x rest ih => simp [printableItems, ih]

theorem mem_of_getField {key : Str} {value : Json} {fields : List (Str × Json)}
    (h : getField key fields = some value) : (key, value) ∈ fields := by
  induction fields with
  | nil => simp [getField] at h
  | cons f rest ih =>
      obtain ⟨k, v⟩ := f
      simp only [getField] at h
      split_ifs at h with hk
      · cases h
        simp [hk]
      · exact List.mem_cons_of_mem _ (ih h)

theorem printable_of_get? {v x : Json} {key : Str} (hv : v.printable = true)
    (h : v.get? key = some x) : x.printable = true := by
  cases v with
  | obj fields => exact (printableFields_iff fields).mp hv _ (mem_of_getField h)
  | _ => simp [get?] at h

theorem normalItems_iff (items : List Json) : NormalItems items ↔ ∀ x ∈ items, Normal x := by
  induction items with
  | nil => simp [NormalItems]
  | cons x xs ih => simp [NormalItems, ih]

theorem normalFields_iff (fields : List (Str × Json)) :
    NormalFields fields ↔ ∀ f ∈ fields, f.1.encodable = true ∧ Normal f.2 := by
  induction fields with
  | nil => simp [NormalFields]
  | cons f rest ih =>
      obtain ⟨k, x⟩ := f
      simp [NormalFields, ih, and_assoc]

theorem mem_setField {f : Str × Json} {key : Str} {value : Json} {fields : List (Str × Json)}
    (h : f ∈ setField key value fields) : f = (key, value) ∨ f ∈ fields := by
  induction fields with
  | nil => simpa [setField] using h
  | cons g rest ih =>
      obtain ⟨k, v⟩ := g
      simp only [setField] at h
      split_ifs at h with heq hlt
      · rcases List.mem_cons.mp h with rfl | h
        · exact Or.inl rfl
        · exact Or.inr (List.mem_cons_of_mem _ h)
      · rcases List.mem_cons.mp h with rfl | h
        · exact Or.inl rfl
        · exact Or.inr h
      · rcases List.mem_cons.mp h with rfl | h
        · exact Or.inr List.mem_cons_self
        · exact (ih h).imp id (List.mem_cons_of_mem _)

theorem mem_foldl_setField {f : Str × Json} (fields before : List (Str × Json))
    (h : f ∈ fields.foldl (fun d g => setField g.1 g.2 d) before) : f ∈ fields ∨ f ∈ before := by
  induction fields generalizing before with
  | nil => exact Or.inr h
  | cons g rest ih =>
      rcases ih _ h with h | h
      · exact Or.inl (List.mem_cons_of_mem _ h)
      · rcases mem_setField h with rfl | h
        · exact Or.inl List.mem_cons_self
        · exact Or.inr h

theorem getField_foldl_setField (k : Str) (fields before : List (Str × Json))
    (h : (fields.map Prod.fst).Nodup) :
    getField k (fields.foldl (fun d g => setField g.1 g.2 d) before) =
      (getField k fields).or (getField k before) := by
  induction fields generalizing before with
  | nil => simp [getField]
  | cons f rest ih =>
      obtain ⟨k', v⟩ := f
      rw [List.map_cons, List.nodup_cons] at h
      rw [List.foldl_cons, ih _ h.2, getField_setField]
      simp only [getField]
      by_cases hk : k = k'
      · subst hk
        have hnone : getField k rest = none := by
          rw [← Option.not_isSome_iff_eq_none, getField_isSome]
          exact h.1
        simp [hnone]
      · simp [hk]

theorem getField_of_mem {k : Str} {v : Json} {fields : List (Str × Json)}
    (h : (fields.map Prod.fst).Nodup) (hm : (k, v) ∈ fields) : getField k fields = some v := by
  induction fields with
  | nil => simp at hm
  | cons f rest ih =>
      obtain ⟨k', v'⟩ := f
      rw [List.map_cons, List.nodup_cons] at h
      rcases List.mem_cons.mp hm with heq | hmem
      · cases heq
        simp [getField]
      · have hne : k ≠ k' := by
          rintro rfl
          exact h.1 (List.mem_map.mpr ⟨_, hmem, rfl⟩)
        simpa [getField, hne] using ih h.2 hmem

theorem get?_object {fields : List (Str × Json)} (h : (fields.map Prod.fst).Nodup) (k : Str) :
    (object fields).get? k = getField k fields := by
  rw [object, get?, getField_foldl_setField k fields [] h]
  simp [getField]

theorem mem_keys_object (k : Str) (fields : List (Str × Json)) :
    k ∈ (object fields).keys ↔ k ∈ fields.map Prod.fst := by
  have hfold : ∀ before : List (Str × Json),
      k ∈ (fields.foldl (fun d g => setField g.1 g.2 d) before).map Prod.fst ↔
        k ∈ fields.map Prod.fst ∨ k ∈ before.map Prod.fst := by
    induction fields with
    | nil => simp
    | cons f rest ih =>
        intro before
        rw [List.foldl_cons, ih, mem_keys_setField, List.map_cons, List.mem_cons]
        tauto
  rw [object, keys, hfold []]
  simp

@[simp] theorem isObject_object (fields : List (Str × Json)) : (object fields).isObject = true :=
  rfl

theorem hasKeys_object (fields : List (Str × Json)) (expected : List Str) :
    (object fields).hasKeys expected = true ↔
      (∀ k ∈ expected, k ∈ fields.map Prod.fst) ∧ ∀ k ∈ fields.map Prod.fst, k ∈ expected := by
  simp only [hasKeys, Bool.and_eq_true, List.all_eq_true, decide_eq_true_eq, mem_keys_object]

theorem normal_object {fields : List (Str × Json)}
    (h : ∀ f ∈ fields, f.1.encodable = true ∧ Normal f.2) : (object fields).Normal := by
  refine ⟨foldl_setField_sorted fields [] (by simp), (normalFields_iff _).mpr fun f hf => ?_⟩
  rcases mem_foldl_setField fields [] hf with hf | hf
  · exact h f hf
  · simp at hf

/-- A printable object is normal if its keys can be encoded and its printable values are
normal. -/
theorem normal_object_of_printable {fields : List (Str × Json)}
    (hp : (object fields).printable = true) (hnodup : (fields.map Prod.fst).Nodup)
    (h : ∀ f ∈ fields, f.1.encodable = true ∧ (f.2.printable = true → Normal f.2)) :
    (object fields).Normal := by
  apply normal_object
  intro f hf
  refine ⟨(h f hf).1, (h f hf).2 ?_⟩
  apply printable_of_get? hp
  rw [get?_object hnodup]
  exact getField_of_mem hnodup hf

theorem normal_int_of_printable {n : ℤ} (h : (Json.int n).printable = true) : (Json.int n).Normal := by
  simpa [printable, Normal] using h

theorem normal_nats_of_printable {values : List ℕ} (hp : (Json.arr (nats values)).printable = true) :
    (Json.arr (nats values)).Normal := by
  rw [Normal, normalItems_iff]
  intro x hx
  have hprint := (printableItems_iff (nats values)).mp hp x hx
  obtain ⟨n, -, rfl⟩ := List.mem_map.mp hx
  exact normal_int_of_printable hprint

end Json
end SparkCache
