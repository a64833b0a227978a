import Mathlib.Algebra.BigOperators.Group.Finset.Basic
import Mathlib.Data.List.Count
import Mathlib.Logic.Function.Basic
import Mathlib.Tactic

/-!
# Reference counts

Objects with a size and counts of the references to them. Dropping references
one after another frees an object with the last of them, and what is counted as
live is what some reference is left to.
-/
namespace References

variable {α : Type*} [DecidableEq α]

/-- How often each object is referenced. -/
def count (refs : List α) (a : α) : ℤ := refs.count a

/-- The size of the objects that are referenced. -/
def live (size : α → ℕ) (refs : List α) : ℕ := ∑ a ∈ refs.toFinset, size a

/-- One reference after another is dropped; with the last reference to an object its size is taken
from the total. -/
def release (size : α → ℕ) : List α → (α → ℤ) → ℤ → (α → ℤ) × ℤ
  | [], counts, total => (counts, total)
  | a :: refs, counts, total =>
      let left := counts a - 1
      release size refs (Function.update counts a left)
        (if left = 0 then total - size a else total)

theorem count_perm {refs refs' : List α} (h : refs.Perm refs') : count refs = count refs' := by
  ext a
  rw [count, count, h.count_eq]

theorem live_perm {size : α → ℕ} {refs refs' : List α} (h : refs.Perm refs') :
    live size refs = live size refs' := by
  rw [live, live, List.toFinset_eq_of_perm _ _ h]

theorem count_pos {refs : List α} {a : α} : 0 < count refs a ↔ a ∈ refs := by
  rw [count, Int.natCast_pos, List.count_pos_iff]

theorem count_eq_zero {refs : List α} {a : α} : count refs a = 0 ↔ a ∉ refs := by
  rw [count, Int.natCast_eq_zero, List.count_eq_zero]

theorem count_cons_sub (a : α) (refs : List α) :
    Function.update (count (a :: refs)) a (count (a :: refs) a - 1) = count refs := by
  ext b
  by_cases hb : b = a
  · subst hb
    simp [count]
  · rw [Function.update_of_ne hb, count, count, List.count_cons_of_ne (Ne.symm hb)]

theorem live_cons_of_notMem {size : α → ℕ} {a : α} {refs : List α} (h : a ∉ refs) :
    live size (a :: refs) = size a + live size refs := by
  rw [live, List.toFinset_cons, Finset.sum_insert (by simpa using h)]
  rfl

theorem live_cons_of_mem {size : α → ℕ} {a : α} {refs : List α} (h : a ∈ refs) :
    live size (a :: refs) = live size refs := by
  rw [live, List.toFinset_cons, Finset.insert_eq_self.mpr (by simpa using h)]
  rfl

/-- Releasing some references leaves the counts of the others and takes off what they freed. -/
theorem release_eq (size : α → ℕ) (refs rest : List α) (total : ℤ) :
    release size refs (count (refs ++ rest)) (total + live size (refs ++ rest)) =
      (count rest, total + live size rest) := by
  induction refs with
  | nil => rfl
  | cons a refs ih =>
      rw [List.cons_append, release, count_cons_sub]
      by_cases h : a ∈ refs ++ rest
      · have hleft : count (a :: (refs ++ rest)) a - 1 ≠ 0 := by
          have hpos := count_pos.mpr h
          have hcons : count (a :: (refs ++ rest)) a = count (refs ++ rest) a + 1 := by
            simp [count]
          omega
        rw [if_neg hleft, live_cons_of_mem h, ih]
      · have hleft : count (a :: (refs ++ rest)) a - 1 = 0 := by
          have hzero := count_eq_zero.mpr h
          have hcons : count (a :: (refs ++ rest)) a = count (refs ++ rest) a + 1 := by
            simp [count]
          omega
        have htotal : total + (live size (a :: (refs ++ rest)) : ℤ) - size a =
            total + live size (refs ++ rest) := by
          rw [live_cons_of_notMem h]
          push_cast
          ring
        rw [if_pos hleft, htotal, ih]

end References
