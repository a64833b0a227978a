import Mathlib.Data.List.AList
import Mathlib.Algebra.BigOperators.Group.List.Basic
import Mathlib.Tactic

/-!
# Insertion-ordered dictionaries

An `AList` with one value type, newest entry first. Writing a key moves it to
the front, as assignment followed by `move_to_end` does. Bounded tables keep
their newest entries.
-/

abbrev Dictionary (κ V : Type*) := AList fun _ : κ => V

namespace AList
variable {κ V : Type*}

def size (d : Dictionary κ V) : ℕ := d.entries.length

/-- The sum of a measure over the values. -/
def total (measure : V → ℕ) (d : Dictionary κ V) : ℕ :=
  (d.entries.map fun e => measure e.2).sum

/-- The entries that satisfy a test, in order. -/
def filter (keep : κ → V → Bool) (d : Dictionary κ V) : Dictionary κ V :=
  ⟨d.entries.filter fun e => keep e.1 e.2, d.nodupKeys.sublist List.filter_sublist⟩

/-- Drop oldest entries until at most `bound` are left. -/
def newest (bound : ℕ) (d : Dictionary κ V) : Dictionary κ V :=
  ⟨d.entries.take bound, d.nodupKeys.sublist (List.take_sublist _ _)⟩

theorem size_filter_le (keep : κ → V → Bool) (d : Dictionary κ V) :
    (d.filter keep).size ≤ d.size :=
  List.length_filter_le _ _

theorem size_newest (bound : ℕ) (d : Dictionary κ V) :
    (d.newest bound).size = min bound d.size :=
  List.length_take

theorem total_filter_le (measure : V → ℕ) (keep : κ → V → Bool) (d : Dictionary κ V) :
    (d.filter keep).total measure ≤ d.total measure :=
  (List.filter_sublist.map _).sum_le_sum fun _ _ => Nat.zero_le _

theorem newest_of_size_le {bound : ℕ} {d : Dictionary κ V} (h : d.size ≤ bound) :
    d.newest bound = d := by
  apply AList.ext
  exact List.take_of_length_le h

theorem filter_of_forall {keep : κ → V → Bool} {d : Dictionary κ V}
    (h : ∀ e ∈ d.entries, keep e.1 e.2 = true) : d.filter keep = d := by
  apply AList.ext
  exact List.filter_eq_self.mpr h

variable [DecidableEq κ]

theorem lookup_eq_some_iff {d : Dictionary κ V} {k : κ} {v : V} :
    d.lookup k = some v ↔ (⟨k, v⟩ : (_ : κ) × V) ∈ d.entries := by
  rw [← Option.mem_def]
  exact mem_lookup_iff

theorem lookup_filter (keep : κ → V → Bool) (d : Dictionary κ V) (k : κ) :
    (d.filter keep).lookup k = (d.lookup k).filter (keep k) := by
  ext v
  rw [lookup_eq_some_iff, Option.filter_eq_some_iff, lookup_eq_some_iff]
  simp [filter]

theorem lookup_filter_some {keep : κ → V → Bool} {d : Dictionary κ V} {k : κ} {v : V}
    (h : (d.filter keep).lookup k = some v) : d.lookup k = some v := by
  rw [lookup_filter, Option.filter_eq_some_iff] at h
  exact h.1

theorem lookup_newest_some {bound : ℕ} {d : Dictionary κ V} {k : κ} {v : V}
    (h : (d.newest bound).lookup k = some v) : d.lookup k = some v := by
  rw [lookup_eq_some_iff] at h ⊢
  exact List.mem_of_mem_take h

theorem lookup_insert_ite (d : Dictionary κ V) (k k' : κ) (v : V) :
    (d.insert k v).lookup k' = if k' = k then some v else d.lookup k' := by
  by_cases heq : k' = k
  · rw [heq, lookup_insert, if_pos rfl]
  · rw [lookup_insert_ne heq, if_neg heq]

theorem lookup_erase_ite (d : Dictionary κ V) (k k' : κ) :
    (d.erase k).lookup k' = if k' = k then none else d.lookup k' := by
  by_cases heq : k' = k
  · rw [heq, lookup_erase, if_pos rfl]
  · rw [lookup_erase_ne heq, if_neg heq]

theorem lookup_erase_some {d : Dictionary κ V} {k k' : κ} {v : V}
    (h : (d.erase k').lookup k = some v) : k ≠ k' ∧ d.lookup k = some v := by
  have hne : k ≠ k' := by
    rintro rfl
    rw [lookup_erase] at h
    cases h
  exact ⟨hne, by rwa [lookup_erase_ne hne] at h⟩

theorem lookup_insert_some {d : Dictionary κ V} {k k' : κ} {v w : V}
    (h : (d.insert k' w).lookup k = some v) :
    (k = k' ∧ v = w) ∨ (k ≠ k' ∧ d.lookup k = some v) := by
  by_cases hk : k = k'
  · subst hk
    rw [lookup_insert] at h
    exact Or.inl ⟨rfl, (Option.some.inj h).symm⟩
  · exact Or.inr ⟨hk, by rwa [lookup_insert_ne hk] at h⟩

theorem size_erase_le (d : Dictionary κ V) (k : κ) : (d.erase k).size ≤ d.size :=
  (List.kerase_sublist k d.entries).length_le

theorem size_insert (d : Dictionary κ V) (k : κ) (v : V) :
    (d.insert k v).size = (d.erase k).size + 1 := by
  simp only [size, entries_insert, List.length_cons]
  rfl

theorem total_erase_le (measure : V → ℕ) (d : Dictionary κ V) (k : κ) :
    (d.erase k).total measure ≤ d.total measure :=
  ((List.kerase_sublist k d.entries).map _).sum_le_sum fun _ _ => Nat.zero_le _

theorem total_insert (measure : V → ℕ) (d : Dictionary κ V) (k : κ) (v : V) :
    (d.insert k v).total measure = measure v + (d.erase k).total measure := by
  simp only [total, entries_insert, List.map_cons, List.sum_cons]
  rfl

/-- A present entry and the rest make up the dictionary. -/
theorem entries_of_lookup {d : Dictionary κ V} {k : κ} {v : V} (h : d.lookup k = some v) :
    ∃ newer older, d.entries = newer ++ ⟨k, v⟩ :: older ∧
      (d.erase k).entries = newer ++ older := by
  have hk : k ∈ d := lookup_isSome.mp (by rw [h]; rfl)
  obtain ⟨w, newer, older, hnot, hd, he⟩ := List.exists_of_kerase hk
  have hw : d.lookup k = some w := lookup_eq_some_iff.mpr (by rw [hd]; simp)
  rw [h] at hw
  cases hw
  exact ⟨newer, older, hd, he⟩

theorem total_of_lookup {d : Dictionary κ V} {k : κ} {v : V} (measure : V → ℕ)
    (h : d.lookup k = some v) : d.total measure = measure v + (d.erase k).total measure := by
  obtain ⟨newer, older, hd, he⟩ := entries_of_lookup h
  simp only [total, hd, he, List.map_append, List.map_cons, List.sum_append, List.sum_cons]
  omega

theorem size_of_lookup {d : Dictionary κ V} {k : κ} {v : V} (h : d.lookup k = some v) :
    d.size = (d.erase k).size + 1 := by
  obtain ⟨newer, older, hd, he⟩ := entries_of_lookup h
  simp only [size, hd, he, List.length_append, List.length_cons]
  omega

/-- Overwriting an entry exchanges its measure. -/
theorem total_insert_of_lookup {d : Dictionary κ V} {k : κ} {v : V} (measure : V → ℕ)
    (h : d.lookup k = some v) (w : V) :
    (d.insert k w).total measure + measure v = d.total measure + measure w := by
  rw [total_insert, total_of_lookup measure h]
  omega

theorem size_insert_of_lookup {d : Dictionary κ V} {k : κ} {v : V} (h : d.lookup k = some v)
    (w : V) : (d.insert k w).size = d.size := by
  rw [size_insert, size_of_lookup h]

theorem erase_of_lookup_none {d : Dictionary κ V} {k : κ} (h : d.lookup k = none) :
    d.erase k = d := by
  apply AList.ext
  exact List.kerase_of_notMem_keys (lookup_eq_none.mp h)

theorem total_insert_of_none {d : Dictionary κ V} {k : κ} (measure : V → ℕ)
    (h : d.lookup k = none) (w : V) :
    (d.insert k w).total measure = d.total measure + measure w := by
  rw [total_insert, erase_of_lookup_none h]
  omega

theorem size_insert_of_none {d : Dictionary κ V} {k : κ} (h : d.lookup k = none) (w : V) :
    (d.insert k w).size = d.size + 1 := by
  rw [size_insert, erase_of_lookup_none h]

end AList
