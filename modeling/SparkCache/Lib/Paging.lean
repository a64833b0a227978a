import SparkCache.Lib.Dictionary

/-!
# Pages of a list

A list is sent in pages of a fixed size; the last page holds the rest, and an
empty list has one empty page. A dictionary of as many pages as there are has
every page.
-/
namespace Paging
variable {α : Type*}

def page (size : ℕ) (items : List α) (index : ℕ) : List α := (items.drop (index * size)).take size

/-- The number of pages of `n` items. -/
def pageCount (size n : ℕ) : ℕ := max 1 ((n + size - 1) / size)

theorem pageCount_pos (size n : ℕ) : 0 < pageCount size n :=
  Nat.lt_of_lt_of_le Nat.zero_lt_one (le_max_left _ _)

theorem page_length (size : ℕ) (items : List α) (index : ℕ) :
    (page size items index).length = min size (items.length - index * size) := by
  rw [page, List.length_take, List.length_drop]

theorem page_sublist (size : ℕ) (items : List α) (index : ℕ) :
    (page size items index).Sublist items :=
  (List.take_sublist _ _).trans (List.drop_sublist _ _)

/-- Every item is on a page. -/
theorem exists_page {size : ℕ} (hsize : 0 < size) {items : List α} {a : α} (h : a ∈ items) :
    ∃ index < pageCount size items.length, a ∈ page size items index := by
  obtain ⟨i, hi, rfl⟩ := List.mem_iff_getElem.mp h
  have hdiv := Nat.div_add_mod i size
  have hmod := Nat.mod_lt i hsize
  have hstart : i / size * size = size * (i / size) := Nat.mul_comm _ _
  refine ⟨i / size, ?_, ?_⟩
  · apply lt_of_lt_of_le _ (le_max_right _ _)
    apply (Nat.le_div_iff_mul_le hsize).mpr
    rw [Nat.succ_mul]
    omega
  · rw [page, List.mem_iff_getElem]
    refine ⟨i % size, ?_, ?_⟩
    · rw [List.length_take, List.length_drop]
      omega
    · rw [List.getElem_take, List.getElem_drop]
      congr 1
      omega

/-! ## Collected pages -/

section Collected
variable {V : Type*} {d : Dictionary ℕ V} {n : ℕ}

theorem card_keys (d : Dictionary ℕ V) : d.keys.toFinset.card = d.size := by
  rw [List.toFinset_card_of_nodup d.keys_nodup]
  simp [AList.size, AList.keys, List.keys]

theorem keys_subset (h : ∀ k ∈ d, k < n) : d.keys.toFinset ⊆ Finset.range n := by
  intro k hk
  exact Finset.mem_range.mpr (h k (AList.mem_keys.mpr (List.mem_toFinset.mp hk)))

/-- A dictionary whose keys are below a bound has all of them when it has as many entries. -/
theorem size_eq_iff (h : ∀ k ∈ d, k < n) : d.size = n ↔ ∀ k < n, k ∈ d := by
  constructor
  · intro hsize k hk
    have heq : d.keys.toFinset = Finset.range n :=
      Finset.eq_of_subset_of_card_le (keys_subset h) (by rw [Finset.card_range, card_keys, hsize])
    rw [AList.mem_keys, ← List.mem_toFinset, heq]
    exact Finset.mem_range.mpr hk
  · intro hall
    have heq : d.keys.toFinset = Finset.range n := by
      apply Finset.Subset.antisymm (keys_subset h)
      intro k hk
      exact List.mem_toFinset.mpr (AList.mem_keys.mp (hall k (Finset.mem_range.mp hk)))
    rw [← card_keys, heq, Finset.card_range]

end Collected

end Paging
