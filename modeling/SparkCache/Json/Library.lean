import SparkCache.Json.Loaded

/-!
# The interpreter's JSON library

What the `json` module of an interpreter may do with bytes that nobody has checked: it raises for text
that it cannot decode, and it gives up on integers with too many digits and on values that are nested
too deep. Canonical text that it does not give up on is read back.
-/
namespace SparkCache

/-- An exception of `json.loads` or `json.dumps`. -/
inductive JsonError where
  /-- `UnicodeDecodeError` -/
  | unicode
  /-- `JSONDecodeError` -/
  | decode
  /-- The `ValueError` of an integer with too many digits. -/
  | digits
  /-- `RecursionError` -/
  | recursion
  deriving DecidableEq, Repr

namespace Json

mutual
def depth : Json → ℕ
  | .arr items => 1 + depthItems items
  | .obj fields => 1 + depthFields fields
  | _ => 0

def depthItems : List Json → ℕ
  | [] => 0
  | x :: xs => max (depth x) (depthItems xs)

def depthFields : List (Str × Json) → ℕ
  | [] => 0
  | (_, x) :: xs => max (depth x) (depthFields xs)
end

theorem depthItems_le {items : List Json} {n : ℕ} (h : ∀ x ∈ items, x.depth ≤ n) : depthItems items ≤ n := by
  induction items with
  | nil => exact Nat.zero_le n
  | cons x rest ih =>
      rw [List.forall_mem_cons] at h
      rw [depthItems]
      exact max_le h.1 (ih h.2)

theorem depthFields_le {fields : List (Str × Json)} {n : ℕ} (h : ∀ f ∈ fields, f.2.depth ≤ n) :
    depthFields fields ≤ n := by
  induction fields with
  | nil => exact Nat.zero_le n
  | cons f rest ih =>
      rw [List.forall_mem_cons] at h
      rw [depthFields]
      exact max_le h.1 (ih h.2)

theorem depth_object_le {fields : List (Str × Json)} {n : ℕ} (h : ∀ f ∈ fields, f.2.depth ≤ n) :
    (object fields).depth ≤ n + 1 := by
  rw [object, depth, Nat.add_comm]
  refine Nat.succ_le_succ (depthFields_le fun f hf => ?_)
  obtain hf | hf := mem_foldl_setField fields [] hf
  · exact h f hf
  · exact absurd hf List.not_mem_nil

/-- A dictionary has its keys once; it is stored sorted by them. -/
def SortedKeys (v : Json) : Prop := v.keys.Pairwise (· < ·)

theorem object_sortedKeys (fields : List (Str × Json)) : (object fields).SortedKeys :=
  foldl_setField_sorted fields [] List.Pairwise.nil

theorem fields_ext {fields fields' : List (Str × Json)} (hkeys : fields.map Prod.fst = fields'.map Prod.fst)
    (hnodup : (fields.map Prod.fst).Nodup)
    (hget : ∀ k ∈ fields.map Prod.fst, getField k fields = getField k fields') : fields = fields' := by
  induction fields generalizing fields' with
  | nil => exact (List.map_eq_nil_iff.mp hkeys.symm).symm
  | cons f rest ih =>
      cases fields' with
      | nil => cases hkeys
      | cons f' rest' =>
          obtain ⟨k, v⟩ := f
          obtain ⟨k', v'⟩ := f'
          simp only [List.map_cons, List.cons.injEq] at hkeys
          rw [List.map_cons, List.nodup_cons] at hnodup
          rw [List.map_cons, List.forall_mem_cons] at hget
          obtain ⟨rfl, hrest⟩ := hkeys
          obtain ⟨hfirst, hlater⟩ := hget
          rw [getField, if_pos rfl, getField, if_pos rfl, Option.some.injEq] at hfirst
          rw [hfirst, ih hrest hnodup.2]
          intro key hkey
          have hne : key ≠ k := by
            rintro rfl
            exact hnodup.1 hkey
          have hsame := hlater key hkey
          rwa [getField, if_neg hne, getField, if_neg hne] at hsame

/-- Dictionaries with the same keys and values are the same. -/
theorem SortedKeys.ext {v w : Json} (hv : v.SortedKeys) (hw : w.SortedKeys) (hvo : v.isObject) (hwo : w.isObject)
    (hkeys : ∀ k, k ∈ v.keys ↔ k ∈ w.keys) (hget : ∀ k ∈ v.keys, v.get? k = w.get? k) : v = w := by
  obtain ⟨fields, rfl⟩ : ∃ fields, v = .obj fields := by
    cases v <;> first | exact ⟨_, rfl⟩ | cases hvo
  obtain ⟨fields', rfl⟩ : ∃ fields, w = .obj fields := by
    cases w <;> first | exact ⟨_, rfl⟩ | cases hwo
  have hsame : fields.map Prod.fst = fields'.map Prod.fst :=
    List.Perm.eq_of_pairwise (fun _ _ _ _ h h' => absurd h' (lt_asymm h)) hv hw
      ((List.perm_ext_iff_of_nodup hv.nodup hw.nodup).mpr hkeys)
  rw [fields_ext hsame hv.nodup hget]

theorem parseUnsigned_keys {negative : Bool} {text rest : List Char} {v : Json}
    (h : parseUnsigned negative text = .ok (v, rest)) : v.keys = [] := by
  unfold parseUnsigned at h
  dsimp only at h
  split_ifs at h
  all_goals
    cases h
    rfl

theorem parseAtom_keys {text rest : List Char} {v : Json} (h : parseAtom text = .ok (v, rest)) : v.keys = [] := by
  unfold parseAtom at h
  repeat
    split at h
    · cases h
      rfl
  split at h
  · exact parseUnsigned_keys h
  · exact parseUnsigned_keys h

theorem parseValue_sortedKeys {fuel : ℕ} {text rest : List Char} {v : Json}
    (h : parseValue fuel text = .ok (v, rest)) : v.SortedKeys := by
  unfold parseValue at h
  split at h
  · cases h
  · rw [Pages.bind_eq_ok] at h
    obtain ⟨_, -, h⟩ := h
    cases h
    exact List.Pairwise.nil
  · split at h
    · cases h
      exact List.Pairwise.nil
    · simp only [Pages.bind_eq_ok] at h
      obtain ⟨_, -, _, -, h⟩ := h
      cases h
      exact List.Pairwise.nil
  · split at h
    · cases h
      exact List.Pairwise.nil
    · simp only [Pages.bind_eq_ok] at h
      obtain ⟨⟨f, more⟩, -, ⟨fs, last⟩, -, h⟩ := h
      cases h
      exact object_sortedKeys (f :: fs)
  · rw [SortedKeys, parseAtom_keys h]
    exact List.Pairwise.nil

/-- The decoder keeps the last value of a key, once. -/
theorem loads_sortedKeys {encoded : Bytes} {v : Json} (h : loads encoded = .ok v) : v.SortedKeys := by
  unfold loads at h
  split at h
  · cases h
  · unfold loadsText at h
    rw [Pages.bind_eq_ok] at h
    obtain ⟨⟨value, rest⟩, hvalue, h⟩ := h
    dsimp only at h
    split at h
    · cases h
      exact parseValue_sortedKeys hvalue
    · cases h

end Json

/-- The `json` module of an interpreter. -/
structure JsonLibrary where
  /-- `json.loads` of a byte string -/
  loads : Bytes → Except JsonError Json
  /-- A value that `json.dumps` cannot walk within the recursion limit. -/
  deep : Json → Bool
  sorted : ∀ {encoded v}, loads encoded = .ok v → v.SortedKeys
  printable : ∀ {encoded v}, loads encoded = .ok v → v.printable = true
  shallow : ∀ {v : Json}, v.depth ≤ 2 → deep v = false
  canonical : ∀ {v : Json}, v.Normal → deep v = false → loads (canonicalJson v) = .ok v

/-- `_canonical_json` -/
def JsonLibrary.dumps (json : JsonLibrary) (v : Json) : Except JsonError Bytes :=
  if json.deep v then .error .recursion
  else match canonicalJson? v with
    | none => .error .digits
    | some encoded => .ok encoded

namespace JsonLibrary

theorem dumps_eq_ok {json : JsonLibrary} {v : Json} {encoded : Bytes} :
    json.dumps v = .ok encoded ↔ json.deep v = false ∧ v.printable = true ∧ encoded = canonicalJson v := by
  unfold dumps canonicalJson?
  by_cases hdeep : json.deep v = true
  · simp [hdeep]
  · by_cases hprintable : v.printable = true
    · simp [hdeep, hprintable, eq_comm]
    · simp [hdeep, hprintable]

def errorOf : LoadError → JsonError
  | .unicode => .unicode
  | .decode => .decode
  | .digits => .digits

/-- A library whose recursion limit nothing reaches. -/
def unlimited : JsonLibrary where
  loads := fun encoded => (SparkCache.loads encoded).mapError errorOf
  deep := fun _ => false
  sorted := by
    intro encoded v h
    cases hloads : SparkCache.loads encoded with
    | error e =>
        rw [hloads] at h
        cases h
    | ok w =>
        rw [hloads] at h
        cases h
        exact Json.loads_sortedKeys hloads
  printable := by
    intro encoded v h
    cases hloads : SparkCache.loads encoded with
    | error e =>
        rw [hloads] at h
        cases h
    | ok w =>
        rw [hloads] at h
        cases h
        exact Json.loads_printable hloads
  shallow := fun _ => rfl
  canonical := by
    intro v hv _
    rw [loads_canonicalJson hv]
    rfl

end JsonLibrary

end SparkCache
