import Mathlib.Data.List.Basic
import Mathlib.Tactic

/-!
# Tilings

Pieces with a start and a stop that follow one another without a gap. A
tiling can be cut: what of each piece lies between two positions tiles the
interval between them.
-/
namespace Tiling

section Tiles
variable {σ τ : Type*} {start stop : σ → ℕ}

/-- The pieces follow one another from a first position to a last one. -/
def Tiles (start stop : σ → ℕ) : ℕ → List σ → ℕ → Prop
  | first, [], last => first = last
  | first, x :: rest, last => start x = first ∧ first ≤ stop x ∧ Tiles start stop (stop x) rest last

theorem Tiles.le {first last : ℕ} {pieces : List σ} (h : Tiles start stop first pieces last) :
    first ≤ last := by
  induction pieces generalizing first with
  | nil => exact Nat.le_of_eq h
  | cons x rest ih => exact h.2.1.trans (ih h.2.2)

theorem Tiles.append {first middle last : ℕ} {pieces more : List σ}
    (h : Tiles start stop first pieces middle) (hmore : Tiles start stop middle more last) :
    Tiles start stop first (pieces ++ more) last := by
  induction pieces generalizing first with
  | nil =>
      have heq : first = middle := h
      rw [heq]
      exact hmore
  | cons x rest ih => exact ⟨h.1, h.2.1, ih h.2.2⟩

theorem Tiles.bounds {first last : ℕ} {pieces : List σ} (h : Tiles start stop first pieces last)
    {x : σ} (hx : x ∈ pieces) : first ≤ start x ∧ start x ≤ stop x ∧ stop x ≤ last := by
  induction pieces generalizing first with
  | nil => cases hx
  | cons y rest ih =>
      obtain ⟨hstart, hle, hrest⟩ := h
      rcases List.mem_cons.mp hx with rfl | hx
      · have hlast := hrest.le
        omega
      · have hbounds := ih hrest hx
        omega

/-- Every position belongs to a piece. -/
theorem Tiles.exists_mem {first last position : ℕ} {pieces : List σ}
    (h : Tiles start stop first pieces last) (hfirst : first ≤ position) (hlast : position < last) :
    ∃ x ∈ pieces, start x ≤ position ∧ position < stop x := by
  induction pieces generalizing first with
  | nil =>
      have heq : first = last := h
      omega
  | cons y rest ih =>
      obtain ⟨hstart, hle, hrest⟩ := h
      by_cases hy : position < stop y
      · exact ⟨y, List.mem_cons_self, by omega, hy⟩
      · obtain ⟨x, hx, hposition⟩ := ih hrest (Nat.le_of_not_lt hy)
        exact ⟨x, List.mem_cons_of_mem _ hx, hposition⟩

/-- Positions may be moved by a monotone map. -/
theorem Tiles.map {first last : ℕ} {pieces : List σ} (h : Tiles start stop first pieces last)
    {start' stop' : τ → ℕ} {g : σ → τ} {f : ℕ → ℕ} (hf : Monotone f)
    (hstart : ∀ x ∈ pieces, start' (g x) = f (start x))
    (hstop : ∀ x ∈ pieces, stop' (g x) = f (stop x)) :
    Tiles start' stop' (f first) (pieces.map g) (f last) := by
  induction pieces generalizing first with
  | nil => exact congrArg f h
  | cons x rest ih =>
      obtain ⟨hx, hle, hrest⟩ := h
      refine ⟨?_, ?_, ?_⟩
      · rw [hstart x List.mem_cons_self, hx]
      · rw [hstop x List.mem_cons_self]
        exact hf hle
      · rw [hstop x List.mem_cons_self]
        exact ih hrest (fun y hy => hstart y (List.mem_cons_of_mem _ hy))
          fun y hy => hstop y (List.mem_cons_of_mem _ hy)

end Tiles

/-! ## Cuts -/

section Cut
variable {σ : Type*} (start stop : σ → ℕ)

/-- What of each piece lies between a cursor and a limit, and where the last cut ends. -/
def cut (limit : ℕ) : ℕ → List σ → List (σ × ℕ × ℕ) × ℕ
  | cursor, [] => ([], cursor)
  | cursor, x :: rest =>
      let first := max cursor (start x)
      let last := min limit (stop x)
      if last ≤ first then cut limit cursor rest
      else if last = limit then ([(x, first, last)], last)
      else
        let (more, cursor) := cut limit last rest
        ((x, first, last) :: more, cursor)

variable {start stop}

theorem cut_of_le {limit cursor : ℕ} (h : limit ≤ cursor) (pieces : List σ) :
    cut start stop limit cursor pieces = ([], cursor) := by
  induction pieces with
  | nil => rfl
  | cons x rest ih =>
      rw [cut]
      dsimp only
      rw [if_pos (by omega), ih]

/-- A cut lies in a piece. -/
theorem mem_cut {limit cursor : ℕ} {pieces : List σ} {c : σ × ℕ × ℕ}
    (h : c ∈ (cut start stop limit cursor pieces).1) :
    c.1 ∈ pieces ∧ start c.1 ≤ c.2.1 ∧ c.2.1 < c.2.2 ∧ c.2.2 ≤ stop c.1 := by
  induction pieces generalizing cursor with
  | nil => cases h
  | cons x rest ih =>
      rw [cut] at h
      dsimp only at h
      split_ifs at h with hempty hlimit
      · obtain ⟨hmem, hbounds⟩ := ih h
        exact ⟨List.mem_cons_of_mem _ hmem, hbounds⟩
      · rw [List.mem_singleton.mp h]
        refine ⟨List.mem_cons_self, ?_⟩
        dsimp only
        omega
      · rcases List.mem_cons.mp h with rfl | h
        · refine ⟨List.mem_cons_self, ?_⟩
          dsimp only
          omega
        · obtain ⟨hmem, hbounds⟩ := ih h
          exact ⟨List.mem_cons_of_mem _ hmem, hbounds⟩

/-- The cuts of a tiling tile what lies between the cursor and the limit. -/
theorem Tiles.cut {first last limit cursor : ℕ} {pieces : List σ}
    (h : Tiles start stop first pieces last) (hfirst : first ≤ cursor)
    (hlimit : (Tiling.cut start stop limit cursor pieces).2 = limit) :
    Tiles (fun c => c.2.1) (fun c => c.2.2) cursor (Tiling.cut start stop limit cursor pieces).1
      limit := by
  induction pieces generalizing first cursor with
  | nil => exact hlimit
  | cons x rest ih =>
      obtain ⟨hstart, hle, hrest⟩ := h
      by_cases hdone : limit ≤ cursor
      · rw [cut_of_le hdone] at hlimit ⊢
        exact hlimit
      · have hmax : max cursor (start x) = cursor := by omega
        rw [Tiling.cut] at hlimit ⊢
        dsimp only at hlimit ⊢
        rw [hmax] at hlimit ⊢
        split_ifs at hlimit ⊢ with hempty hlast
        · exact ih hrest (by omega) hlimit
        · refine ⟨rfl, ?_, hlast⟩
          dsimp only
          omega
        · have hstop : min limit (stop x) = stop x := by omega
          rw [hstop] at hlimit ⊢
          refine ⟨rfl, ?_, ih hrest le_rfl hlimit⟩
          dsimp only
          omega

end Cut
end Tiling
