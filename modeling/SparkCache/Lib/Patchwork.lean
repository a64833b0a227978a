import Mathlib.Data.List.Basic
import Mathlib.Tactic

/-!
# Patchworks

A sequence put together from pieces of other sequences. Each patch covers an
interval of positions and names the owner and the offset its elements come
from. A patchwork is cut at a position and extended at its end. `Tiles` says what the
patches of a sequence are after a number of such edits.
-/
namespace Patchwork

structure Patch (ω : Type*) where
  start : ℕ
  stop : ℕ
  owner : ω
  source : ℕ
  deriving DecidableEq

variable {ω α : Type*}

/-- The patches before a position, the last one cut there. -/
def truncate (cutoff : ℕ) : List (Patch ω) → List (Patch ω)
  | [] => []
  | x :: rest =>
      if cutoff ≤ x.start then [] else { x with stop := min x.stop cutoff } :: truncate cutoff rest

/-- The patches cover the interval from `first` to `last`, each position once. -/
def Contiguous : ℕ → List (Patch ω) → ℕ → Prop
  | first, [], last => first = last
  | first, x :: rest, last => x.start = first ∧ first < x.stop ∧ Contiguous x.stop rest last

/-- The end of the last patch. -/
def lastStop (patches : List (Patch ω)) : ℕ :=
  match patches.getLast? with
  | some x => x.stop
  | none => 0

def content (read : ω → List α) (x : Patch ω) : List α :=
  ((read x.owner).drop x.source).take (x.stop - x.start)

def render (read : ω → List α) (patches : List (Patch ω)) : List α :=
  patches.flatMap (content read)

/-- The owner has all elements that the patch takes from it. -/
def Backed (read : ω → List α) (x : Patch ω) : Prop :=
  x.source + (x.stop - x.start) ≤ (read x.owner).length

theorem Contiguous.le {first last : ℕ} {patches : List (Patch ω)}
    (h : Contiguous first patches last) : first ≤ last := by
  induction patches generalizing first with
  | nil => exact Nat.le_of_eq h
  | cons x rest ih => exact h.2.1.le.trans (ih h.2.2)

theorem Contiguous.lastStop_eq {first last : ℕ} {patches : List (Patch ω)}
    (h : Contiguous first patches last) (hne : patches ≠ []) : lastStop patches = last := by
  induction patches generalizing first with
  | nil => exact absurd rfl hne
  | cons x rest ih =>
      cases rest with
      | nil => exact h.2.2
      | cons y more =>
          have hrest := ih h.2.2 (by simp)
          unfold lastStop at hrest ⊢
          rwa [List.getLast?_cons_cons]

theorem Contiguous.lastStop_zero {last : ℕ} {patches : List (Patch ω)}
    (h : Contiguous 0 patches last) : lastStop patches = last := by
  cases patches with
  | nil => exact h
  | cons x rest => exact h.lastStop_eq (by simp)

theorem truncate_of_le {cutoff first last : ℕ} {patches : List (Patch ω)}
    (h : Contiguous first patches last) (hc : cutoff ≤ first) : truncate cutoff patches = [] := by
  cases patches with
  | nil => rfl
  | cons x rest => exact if_pos (by rw [h.1]; exact hc)

theorem Contiguous.truncate {cutoff first last : ℕ} {patches : List (Patch ω)}
    (h : Contiguous first patches last) (hfirst : first ≤ cutoff) (hlast : cutoff ≤ last) :
    Contiguous first (truncate cutoff patches) cutoff := by
  induction patches generalizing first with
  | nil =>
      have heq : first = last := h
      show first = cutoff
      omega
  | cons x rest ih =>
      obtain ⟨hstart, hlt, hrest⟩ := h
      unfold Patchwork.truncate
      split
      · show first = cutoff
        omega
      · by_cases hstop : cutoff ≤ x.stop
        · rw [truncate_of_le hrest hstop, Nat.min_eq_right hstop]
          refine ⟨hstart, ?_, rfl⟩
          show first < cutoff
          omega
        · rw [Nat.min_eq_left (Nat.le_of_not_le hstop)]
          exact ⟨hstart, hlt, ih hrest (Nat.le_of_not_le hstop)⟩

theorem Contiguous.append {first middle last : ℕ} {patches : List (Patch ω)} {x : Patch ω}
    (h : Contiguous first patches middle) (hx : x.start = middle) (hlt : middle < x.stop)
    (hlast : x.stop = last) : Contiguous first (patches ++ [x]) last := by
  induction patches generalizing first with
  | nil =>
      have heq : first = middle := h
      exact ⟨hx.trans heq.symm, heq ▸ hlt, hlast⟩
  | cons y rest ih => exact ⟨h.1, h.2.1, ih h.2.2⟩

section Render
variable {read : ω → List α}

theorem content_length {x : Patch ω} (h : Backed read x) :
    (content read x).length = x.stop - x.start := by
  unfold Backed at h
  rw [content, List.length_take, List.length_drop]
  omega

/-- Cutting a patchwork cuts what it renders. -/
theorem Contiguous.render_truncate {cutoff first last : ℕ} {patches : List (Patch ω)}
    (h : Contiguous first patches last) (hb : ∀ x ∈ patches, Backed read x)
    (hfirst : first ≤ cutoff) :
    render read (Patchwork.truncate cutoff patches) = (render read patches).take (cutoff - first) := by
  induction patches generalizing first with
  | nil => simp [Patchwork.truncate, render]
  | cons x rest ih =>
      obtain ⟨hstart, hlt, hrest⟩ := h
      have hbx := hb x List.mem_cons_self
      have hx := content_length hbx
      unfold Patchwork.truncate
      split
      · rename_i hle
        have hzero : cutoff - first = 0 := by omega
        rw [hzero, List.take_zero]
        rfl
      · have hcut : content read { x with stop := min x.stop cutoff } =
            (content read x).take (cutoff - first) := by
          unfold content
          rw [List.take_take, hstart]
          dsimp only
          congr 1
          omega
        unfold render at ih ⊢
        rw [List.flatMap_cons, List.flatMap_cons, List.take_append, hcut, hx]
        congr 1
        by_cases hstop : cutoff ≤ x.stop
        · rw [truncate_of_le hrest hstop]
          have hzero : cutoff - first - (x.stop - x.start) = 0 := by omega
          rw [hzero, List.take_zero]
          rfl
        · rw [ih hrest (fun y hy => hb y (List.mem_cons_of_mem _ hy)) (Nat.le_of_not_le hstop)]
          congr 1
          omega

end Render

/-- What holds of a patch however it is cut holds of what is left before a position. -/
theorem mem_truncate {cutoff : ℕ} {patches : List (Patch ω)} {y : Patch ω}
    (h : y ∈ truncate cutoff patches) :
    ∃ x ∈ patches, y = { x with stop := min x.stop cutoff } ∧ y.start < cutoff := by
  induction patches with
  | nil => cases h
  | cons x rest ih =>
      unfold truncate at h
      split at h
      · cases h
      · rename_i hlt
        rcases List.mem_cons.mp h with rfl | h
        · exact ⟨x, List.mem_cons_self, rfl, Nat.lt_of_not_le hlt⟩
        · obtain ⟨x', hx', heq, hlt'⟩ := ih h
          exact ⟨x', List.mem_cons_of_mem _ hx', heq, hlt'⟩

theorem owners_truncate (cutoff : ℕ) (patches : List (Patch ω)) :
    List.Sublist ((truncate cutoff patches).map Patch.owner) (patches.map Patch.owner) := by
  induction patches with
  | nil => exact List.Sublist.refl _
  | cons x rest ih =>
      unfold truncate
      split
      · exact List.nil_sublist _
      · exact ih.cons_cons _

theorem Backed.cut {read : ω → List α} {x : Patch ω} (h : Backed read x) (cutoff : ℕ) :
    Backed read { x with stop := min x.stop cutoff } := by
  unfold Backed at h ⊢
  dsimp only
  omega

/-! ## Edits -/

section Edits
variable {read : Option ℕ → List α} {cut : ℕ → ℕ} {k : ℕ} {whole : List α}
  {patches : List (Patch (Option ℕ))}

/-- The patches of a sequence after `k` edits: edit `j` cut the sequence at `cut j` and appended
what its owner `some j` holds. Owner `none` holds the start. -/
structure Tiles (read : Option ℕ → List α) (cut : ℕ → ℕ) (k : ℕ) (whole : List α)
    (patches : List (Patch (Option ℕ))) : Prop where
  contiguous : Contiguous 0 patches whole.length
  backed : ∀ x ∈ patches, Backed read x
  render : render read patches = whole
  owners : (patches.map Patch.owner).Nodup
  placed : ∀ x ∈ patches, ∀ j, x.owner = some j →
    j < k ∧ x.start = cut j ∧ x.source = 0 ∧ ∀ m, j < m → m < k → cut j < cut m

/-- The patches after an edit that appends a number of elements. -/
def edited (k cutoff length : ℕ) (patches : List (Patch (Option ℕ))) : List (Patch (Option ℕ)) :=
  if length = 0 then truncate cutoff patches
  else truncate cutoff patches ++ [⟨cutoff, cutoff + length, some k, 0⟩]

theorem Tiles.start {source : ℕ} (hpos : 0 < whole.length)
    (h : (((read none).drop source).take whole.length) = whole) :
    Tiles read cut 0 whole [⟨0, whole.length, none, source⟩] := by
  have hback : source + whole.length ≤ (read none).length := by
    have hlen := congrArg List.length h
    rw [List.length_take, List.length_drop] at hlen
    omega
  refine ⟨⟨rfl, hpos, rfl⟩, ?_, ?_, List.nodup_singleton _, ?_⟩
  · intro x hx
    rw [List.mem_singleton.mp hx]
    exact hback
  · rw [Patchwork.render, List.flatMap_singleton]
    exact h
  · intro x hx j hj
    rw [List.mem_singleton.mp hx] at hj
    cases hj

theorem Tiles.lastStop (h : Tiles read cut k whole patches) {cutoff : ℕ}
    (hcut : cutoff ≤ whole.length) : lastStop (truncate cutoff patches) = cutoff :=
  (h.contiguous.truncate (Nat.zero_le _) hcut).lastStop_zero

/-- What is left of the patches after a cut. -/
theorem Tiles.truncate_placed (h : Tiles read cut k whole patches) :
    ∀ x ∈ truncate (cut k) patches, Backed read x ∧ ∀ j, x.owner = some j →
      j < k + 1 ∧ x.start = cut j ∧ x.source = 0 ∧ ∀ m, j < m → m < k + 1 → cut j < cut m := by
  intro x hx
  obtain ⟨y, hy, rfl, hstart⟩ := mem_truncate hx
  refine ⟨(h.backed y hy).cut _, ?_⟩
  intro j hj
  obtain ⟨hlt, hplace, hsource, hlater⟩ := h.placed y hy j hj
  refine ⟨Nat.lt_succ_of_lt hlt, hplace, hsource, ?_⟩
  intro m hm hmk
  by_cases hk : m = k
  · rw [hk, ← hplace]
    exact hstart
  · exact hlater m hm (by omega)

theorem Tiles.edit (h : Tiles read cut k whole patches) (hcut : cut k ≤ whole.length) :
    Tiles read cut (k + 1) (whole.take (cut k) ++ read (some k))
      (edited k (cut k) (read (some k)).length patches) := by
  have hcontiguous := h.contiguous.truncate (Nat.zero_le _) hcut
  have hrender := h.contiguous.render_truncate h.backed (Nat.zero_le (cut k))
  rw [Nat.sub_zero, h.render] at hrender
  have htake : (whole.take (cut k)).length = cut k := by
    rw [List.length_take]
    omega
  have howners := h.owners.sublist (owners_truncate (cut k) patches)
  unfold edited
  split
  · rename_i hempty
    rw [List.eq_nil_of_length_eq_zero hempty, List.append_nil]
    exact ⟨by rw [htake]; exact hcontiguous, fun x hx => (h.truncate_placed x hx).1, hrender, howners,
      fun x hx => (h.truncate_placed x hx).2⟩
  · rename_i hne
    constructor
    · rw [List.length_append, htake]
      refine hcontiguous.append rfl ?_ rfl
      show cut k < cut k + _
      omega
    · intro x hx
      rcases List.mem_append.mp hx with hx | hx
      · exact (h.truncate_placed x hx).1
      · rw [List.mem_singleton.mp hx]
        show 0 + (cut k + (read (some k)).length - cut k) ≤ (read (some k)).length
        omega
    · have hnew : content read (⟨cut k, cut k + (read (some k)).length, some k, 0⟩ :
          Patch (Option ℕ)) = read (some k) := by
        rw [content, List.drop_zero, Nat.add_sub_cancel_left, List.take_length]
      unfold Patchwork.render at hrender ⊢
      rw [List.flatMap_append, hrender, List.flatMap_singleton, hnew]
    · rw [List.map_append, List.nodup_append]
      refine ⟨howners, List.nodup_singleton _, ?_⟩
      intro a ha b hb heq
      obtain ⟨x, hx, rfl⟩ := List.mem_map.mp ha
      obtain ⟨y, hy, heq', -⟩ := mem_truncate hx
      rw [List.map_singleton, List.mem_singleton] at hb
      have howner : y.owner = some k := by
        rw [heq'] at heq
        exact heq.trans hb
      exact absurd (h.placed y hy k howner).1 (Nat.lt_irrefl _)
    · intro x hx j hj
      rcases List.mem_append.mp hx with hx | hx
      · exact (h.truncate_placed x hx).2 j hj
      · rw [List.mem_singleton.mp hx] at hj ⊢
        cases hj
        refine ⟨Nat.lt_succ_self _, rfl, rfl, ?_⟩
        intro m hm hmk
        omega

end Edits
end Patchwork
