import SparkCache.Json.Equality
import SparkCache.Digest

/-!
# Plain values

The values that this program builds: no floats, strings that can be encoded,
objects sorted by distinct keys. A plain value that can be printed is decoded
to itself, and it equals itself in Python.
-/
namespace SparkCache.Json

mutual
def Plain : Json → Prop
  | .null | .bool _ | .int _ => True
  | .float _ => False
  | .str s => s.encodable
  | .arr items => PlainItems items
  | .obj fields => (fields.map Prod.fst).Pairwise (· < ·) ∧ PlainFields fields

def PlainItems : List Json → Prop
  | [] => True
  | x :: xs => Plain x ∧ PlainItems xs

def PlainFields : List (Str × Json) → Prop
  | [] => True
  | (k, x) :: xs => k.encodable ∧ Plain x ∧ PlainFields xs
end

mutual
theorem Plain.normal : (v : Json) → v.Plain → v.printable = true → v.Normal
  | .null, _, _ | .bool _, _, _ => trivial
  | .int _, _, hp => by simpa [printable, Normal] using hp
  | .float _, h, _ => h.elim
  | .str _, h, _ => h
  | .arr items, h, hp => PlainItems.normal items h hp
  | .obj fields, h, hp => ⟨h.1, PlainFields.normal fields h.2 hp⟩

theorem PlainItems.normal : (items : List Json) → PlainItems items →
    printableItems items = true → NormalItems items
  | [], _, _ => trivial
  | x :: xs, h, hp => by
      rw [printableItems, Bool.and_eq_true] at hp
      exact ⟨Plain.normal x h.1 hp.1, PlainItems.normal xs h.2 hp.2⟩

theorem PlainFields.normal : (fields : List (Str × Json)) → PlainFields fields →
    printableFields fields = true → NormalFields fields
  | [], _, _ => trivial
  | (_, x) :: xs, h, hp => by
      rw [printableFields, Bool.and_eq_true] at hp
      exact ⟨h.1, Plain.normal x h.2.1 hp.1, PlainFields.normal xs h.2.2 hp.2⟩
end

mutual
theorem Plain.pyEq_self : (v : Json) → v.Plain → pyEq v v = true
  | .null, _ => rfl
  | .bool b, _ => by cases b <;> simp [pyEq, number?, Number.eq]
  | .int n, _ => by simp
  | .float _, h => h.elim
  | .str s, _ => by simp
  | .arr items, h => by
      rw [pyEq]
      exact PlainItems.pyEq_self items h
  | .obj fields, h => by
      rw [pyEq]
      exact PlainFields.pyEq_self fields h.2

theorem PlainItems.pyEq_self : (items : List Json) → PlainItems items →
    pyEqItems items items = true
  | [], _ => rfl
  | x :: xs, h => by
      rw [pyEqItems, Plain.pyEq_self x h.1, PlainItems.pyEq_self xs h.2]
      rfl

theorem PlainFields.pyEq_self : (fields : List (Str × Json)) → PlainFields fields →
    pyEqFields fields fields = true
  | [], _ => rfl
  | (k, x) :: xs, h => by
      rw [pyEqFields, Plain.pyEq_self x h.2.1, PlainFields.pyEq_self xs h.2.2]
      simp
end

theorem plainItems_iff (items : List Json) : PlainItems items ↔ ∀ x ∈ items, Plain x := by
  induction items with
  | nil => simp [PlainItems]
  | cons x xs ih => simp [PlainItems, ih]

theorem plainFields_iff (fields : List (Str × Json)) :
    PlainFields fields ↔ ∀ f ∈ fields, f.1.encodable = true ∧ Plain f.2 := by
  induction fields with
  | nil => simp [PlainFields]
  | cons f rest ih =>
      obtain ⟨k, x⟩ := f
      simp [PlainFields, ih, and_assoc]

theorem plain_arr {items : List Json} (h : ∀ x ∈ items, Plain x) : (Json.arr items).Plain :=
  (plainItems_iff items).mpr h

theorem plain_object {fields : List (Str × Json)}
    (h : ∀ f ∈ fields, f.1.encodable = true ∧ Plain f.2) : (object fields).Plain := by
  refine ⟨foldl_setField_sorted fields [] (by simp), (plainFields_iff _).mpr fun f hf => ?_⟩
  rcases mem_foldl_setField fields [] hf with hf | hf
  · exact h f hf
  · simp at hf

@[simp] theorem plain_int (n : ℤ) : (Json.int n).Plain := trivial

@[simp] theorem plain_null : Json.null.Plain := trivial

@[simp] theorem plain_str_ofString (s : String) : (Json.str (Str.ofString s)).Plain :=
  Str.encodable_ofString s

@[simp] theorem plain_hex {n : ℕ} (h : Hex n) : h.json.Plain := h.encodable

/-- The canonical form of a plain value, where it has one, is decoded to the value. -/
theorem Plain.loads {v : Json} {encoded : Bytes} (h : v.Plain)
    (hv : canonicalJson? v = some encoded) :
    v.Normal ∧ encoded = canonicalJson v ∧ SparkCache.loads encoded = .ok v := by
  unfold canonicalJson? at hv
  split_ifs at hv with hp
  cases hv
  have hnormal := Plain.normal v h hp
  exact ⟨hnormal, rfl, loads_canonicalJson hnormal⟩

/-- Plain values with the same canonical form are the same. -/
theorem Plain.canonicalJson?_inj {v w : Json} {encoded : Bytes} (hv : v.Plain) (hw : w.Plain)
    (h₁ : canonicalJson? v = some encoded) (h₂ : canonicalJson? w = some encoded) : v = w := by
  have hleft := (hv.loads h₁).2.2
  rw [(hw.loads h₂).2.2] at hleft
  cases hleft
  rfl

end SparkCache.Json
