import Mathlib.Data.List.Basic

/-!
# Runs of a deterministic machine

A machine is a step function on states. A run is a list of actions; a property
of states and actions holds throughout it when it holds at each action in the
state in which that action is taken.
-/
namespace Run
variable {σ α : Type*}

def exec (step : σ → α → σ) (s : σ) (actions : List α) : σ := actions.foldl step s

@[simp] theorem exec_nil (step : σ → α → σ) (s : σ) : exec step s [] = s := rfl

@[simp] theorem exec_cons (step : σ → α → σ) (s : σ) (a : α) (rest : List α) :
    exec step s (a :: rest) = exec step (step s a) rest := rfl

theorem exec_append (step : σ → α → σ) (s : σ) (before after : List α) :
    exec step s (before ++ after) = exec step (exec step s before) after :=
  List.foldl_append

theorem exec_concat (step : σ → α → σ) (s : σ) (actions : List α) (a : α) :
    exec step s (actions ++ [a]) = step (exec step s actions) a := by
  simp [exec]

def Throughout (step : σ → α → σ) (p : σ → α → Prop) : σ → List α → Prop
  | _, [] => True
  | s, a :: rest => p s a ∧ Throughout step p (step s a) rest

instance decidableThroughout (step : σ → α → σ) (p : σ → α → Prop) [∀ s a, Decidable (p s a)] :
    (s : σ) → (actions : List α) → Decidable (Throughout step p s actions)
  | _, [] => .isTrue trivial
  | s, a :: rest =>
      have := decidableThroughout step p (step s a) rest
      inferInstanceAs (Decidable (p s a ∧ Throughout step p (step s a) rest))

variable {step : σ → α → σ} {p q : σ → α → Prop} {I : σ → Prop}

theorem throughout_append (s : σ) (before after : List α) :
    Throughout step p s (before ++ after) ↔
      Throughout step p s before ∧ Throughout step p (exec step s before) after := by
  induction before generalizing s with
  | nil => simp [Throughout]
  | cons a rest ih => simp [Throughout, ih, and_assoc]

theorem Throughout.and {s : σ} {actions : List α} (hp : Throughout step p s actions)
    (hq : Throughout step q s actions) :
    Throughout step (fun s a => p s a ∧ q s a) s actions := by
  induction actions generalizing s with
  | nil => trivial
  | cons a rest ih => exact ⟨⟨hp.1, hq.1⟩, ih hp.2 hq.2⟩

theorem Throughout.take {s : σ} {actions : List α} (h : Throughout step p s actions) (n : ℕ) :
    Throughout step p s (actions.take n) := by
  rw [← List.take_append_drop n actions, throughout_append] at h
  exact h.1

/-- What a step keeps in an invariant state, later states of the run have too. -/
theorem Throughout.persists {K : σ → Prop} {s : σ} {actions : List α}
    (h : Throughout step p s actions) (hstep : ∀ s a, I s → p s a → I (step s a))
    (hkept : ∀ s a, I s → p s a → K s → K (step s a)) (hs : I s) {n : ℕ}
    (hn : K (exec step s (actions.take n))) : K (exec step s actions) := by
  induction actions generalizing s n with
  | nil =>
      rw [List.take_nil] at hn
      exact hn
  | cons a rest ih =>
      cases n with
      | zero =>
          exact ih h.2 (hstep s a hs h.1) (n := 0) (hkept s a hs h.1 hn)
      | succ n => exact ih h.2 (hstep s a hs h.1) hn

/-- What each allowed step preserves holds at the end of a run of allowed steps. -/
theorem Throughout.preserves {s : σ} {actions : List α} (h : Throughout step p s actions)
    (hstep : ∀ s a, I s → p s a → I (step s a)) (hs : I s) :
    I (exec step s actions) := by
  induction actions generalizing s with
  | nil => exact hs
  | cons a rest ih => exact ih h.2 (hstep s a hs h.1)

/-- An invariant and the condition on a step give a property of each step. -/
theorem Throughout.imp_of_invariant {s : σ} {actions : List α} (h : Throughout step p s actions)
    (hstep : ∀ s a, I s → p s a → I (step s a)) (hq : ∀ s a, I s → p s a → q s a)
    (hs : I s) : Throughout step q s actions := by
  induction actions generalizing s with
  | nil => trivial
  | cons a rest ih => exact ⟨hq s a hs h.1, ih h.2 (hstep s a hs h.1)⟩

/-- A run that has not failed at its end has kept the invariant at each step, if a failure
lasts. -/
theorem Throughout.imp_of_survives {F : σ → Prop} {s : σ} {actions : List α}
    (h : Throughout step p s actions)
    (hstep : ∀ s a, I s → p s a → I (step s a) ∨ F (step s a))
    (hlast : ∀ s a, F s → p s a → F (step s a))
    (hq : ∀ s a, I s → p s a → q s a) (hs : I s) (hend : ¬ F (exec step s actions)) :
    Throughout step q s actions ∧ I (exec step s actions) := by
  have hfail : ∀ (rest : List α) (s : σ), F s → Throughout step p s rest →
      F (exec step s rest) := by
    intro rest
    induction rest with
    | nil => exact fun s hs _ => hs
    | cons a rest ih => exact fun s hs h => ih _ (hlast s a hs h.1) h.2
  induction actions generalizing s with
  | nil => exact ⟨trivial, hs⟩
  | cons a rest ih =>
      rcases hstep s a hs h.1 with hinv | hfailed
      · obtain ⟨hrest, hinvEnd⟩ := ih h.2 hinv hend
        exact ⟨⟨hq s a hs h.1, hrest⟩, hinvEnd⟩
      · exact absurd (hfail rest _ hfailed h.2) hend

/-- What every step preserves gives a property of each step. -/
theorem throughout_of_invariant (hstep : ∀ s a, I s → I (step s a))
    (hq : ∀ s a, I s → q s a) {s : σ} (hs : I s) (actions : List α) :
    Throughout step q s actions := by
  induction actions generalizing s with
  | nil => trivial
  | cons a rest ih => exact ⟨hq s a hs, ih (hstep s a hs)⟩

theorem invariant (hstep : ∀ s a, I s → I (step s a)) {s : σ} (hs : I s)
    (actions : List α) : I (exec step s actions) := by
  induction actions generalizing s with
  | nil => exact hs
  | cons a rest ih => exact ih (hstep s a hs)

end Run
