import Mathlib.Data.List.Basic
import Mathlib.Tactic

/-!
# Rows of one width

Byte strings made of consecutive rows of one width, cut and put together at row boundaries.
-/
namespace FixedRows
variable {α : Type*}

/-- The rows from one on, that many, one after another. -/
def joined (row : ℕ → List α) (start count : ℕ) : List α := (List.range' start count).flatMap row

/-- One of the rows of a string. -/
def rowAt (width : ℕ) (rows : List α) (k : ℕ) : List α := (rows.drop (k * width)).take width

@[simp] theorem joined_zero (row : ℕ → List α) (start : ℕ) : joined row start 0 = [] := rfl

theorem joined_add (row : ℕ → List α) (start m n : ℕ) :
    joined row start (m + n) = joined row start m ++ joined row (start + m) n := by
  rw [joined, joined, joined, ← List.flatMap_append, List.range'_append_1]

theorem joined_congr {row row' : ℕ → List α} {start count : ℕ}
    (h : ∀ k, start ≤ k → k < start + count → row k = row' k) :
    joined row start count = joined row' start count := by
  unfold joined
  refine List.flatMap_congr fun k hk => ?_
  rw [List.mem_range'_1] at hk
  exact h k hk.1 hk.2

theorem joined_shift (row : ℕ → List α) (start offset count : ℕ) :
    joined row (start + offset) count = joined (fun k => row (k + offset)) start count := by
  unfold joined
  rw [Nat.add_comm, ← List.map_add_range', List.flatMap_map]
  refine List.flatMap_congr fun k _ => ?_
  rw [Nat.add_comm]

section Width
variable {row : ℕ → List α} {width start count : ℕ}

theorem joined_length (h : ∀ k, start ≤ k → k < start + count → (row k).length = width) :
    (joined row start count).length = count * width := by
  induction count generalizing start with
  | zero => simp
  | succ count ih =>
      have hfirst := h start le_rfl (by omega)
      have hrest : (joined row (start + 1) count).length = count * width :=
        ih fun k hk hlt => h k (by omega) (by omega)
      rw [Nat.add_comm count, joined_add, List.length_append, hrest]
      simp [joined, hfirst, Nat.add_mul]

/-- A slice at row boundaries. -/
theorem take_drop_joined (h : ∀ k, start ≤ k → k < start + count → (row k).length = width) {a b : ℕ}
    (hab : a ≤ b) (hb : b ≤ count) :
    ((joined row start count).drop (a * width)).take ((b - a) * width) =
      joined row (start + a) (b - a) := by
  obtain ⟨m, rfl⟩ := Nat.exists_eq_add_of_le hab
  obtain ⟨n, rfl⟩ := Nat.exists_eq_add_of_le hb
  have hlow : (joined row start a).length = a * width :=
    joined_length fun k hk hlt => h k hk (by omega)
  have hmiddle : (joined row (start + a) m).length = m * width :=
    joined_length fun k hk hlt => h k (by omega) (by omega)
  rw [Nat.add_sub_cancel_left, Nat.add_assoc, joined_add, List.drop_left' hlow, joined_add,
    List.take_left' hmiddle]

theorem rowAt_joined (h : ∀ k, start ≤ k → k < start + count → (row k).length = width) {k : ℕ}
    (hk : k < count) : rowAt width (joined row start count) k = row (start + k) := by
  have hslice := take_drop_joined h (a := k) (b := k + 1) (by omega) (by omega)
  rw [Nat.add_sub_cancel_left, Nat.one_mul] at hslice
  rw [rowAt, hslice]
  simp [joined]

end Width

/-- A string of that many rows is made of its rows. -/
theorem joined_rowAt {rows : List α} {width count : ℕ} (h : rows.length = count * width) :
    joined (rowAt width rows) 0 count = rows := by
  induction count generalizing rows with
  | zero =>
      rw [Nat.zero_mul] at h
      rw [List.eq_nil_of_length_eq_zero h]
      rfl
  | succ count ih =>
      have hrest : joined (rowAt width (rows.drop width)) 0 count = rows.drop width := ih (by
        rw [List.length_drop, h, Nat.succ_mul]
        omega)
      have htail : joined (rowAt width rows) (0 + 1) count = joined (rowAt width (rows.drop width)) 0 count := by
        rw [joined_shift]
        refine joined_congr fun k _ _ => ?_
        rw [rowAt, rowAt, List.drop_drop]
        congr 2
        ring
      rw [Nat.add_comm, joined_add, htail, hrest]
      simp [joined, rowAt]

/-- The first rows of a string are those of its first part. -/
theorem rowAt_append_left {xs ys : List α} {width count k : ℕ} (h : xs.length = count * width)
    (hk : k < count) : rowAt width (xs ++ ys) k = rowAt width xs k := by
  have hnext := Nat.mul_le_mul_right width (Nat.succ_le_of_lt hk)
  rw [Nat.succ_mul] at hnext
  rw [rowAt, rowAt, List.drop_append_of_le_length (by omega), List.take_append_of_le_length (by
    rw [List.length_drop]
    omega)]

theorem rowAt_append_right {xs ys : List α} {width count k : ℕ} (h : xs.length = count * width) :
    rowAt width (xs ++ ys) (count + k) = rowAt width ys k := by
  rw [rowAt, rowAt, Nat.add_mul, ← List.drop_drop, List.drop_left' h]

/-! ## Rows written at indices -/

/-- The rows with some of them written, one write after another. -/
def scatter {β : Type*} (rows : List β) (writes : List (ℕ × β)) : List β :=
  writes.foldl (fun rows w => rows.set w.1 w.2) rows

section Scatter
variable {β : Type*}

@[simp] theorem scatter_nil (rows : List β) : scatter rows [] = rows := rfl

@[simp] theorem scatter_cons (rows : List β) (w : ℕ × β) (writes : List (ℕ × β)) :
    scatter rows (w :: writes) = scatter (rows.set w.1 w.2) writes := rfl

@[simp] theorem scatter_length (rows : List β) (writes : List (ℕ × β)) :
    (scatter rows writes).length = rows.length := by
  induction writes generalizing rows with
  | nil => rfl
  | cons w rest ih => rw [scatter_cons, ih, List.length_set]

theorem scatter_of_notMem {rows : List β} {writes : List (ℕ × β)} {k : ℕ}
    (h : k ∉ writes.map Prod.fst) : (scatter rows writes)[k]? = rows[k]? := by
  induction writes generalizing rows with
  | nil => rfl
  | cons w rest ih =>
      rw [List.map_cons, List.mem_cons, not_or] at h
      rw [scatter_cons, ih h.2, List.getElem?_set_ne (Ne.symm h.1)]

/-- Writes at different indices are all there afterwards. -/
theorem scatter_of_mem {rows : List β} {writes : List (ℕ × β)} (hnodup : (writes.map Prod.fst).Nodup)
    {k : ℕ} {row : β} (hmem : (k, row) ∈ writes) (hk : k < rows.length) :
    (scatter rows writes)[k]? = some row := by
  induction writes generalizing rows with
  | nil => cases hmem
  | cons w rest ih =>
      rw [List.map_cons, List.nodup_cons] at hnodup
      rw [scatter_cons]
      obtain rfl | hrest := List.mem_cons.mp hmem
      · rw [scatter_of_notMem hnodup.1, List.getElem?_set_self hk]
      · exact ih hnodup.2 hrest (by rwa [List.length_set])

end Scatter

end FixedRows
