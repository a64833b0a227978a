import Mathlib.Tactic.Basic

/-!
# Checks

A condition without which a computation raises.
-/
namespace SparkCache

/-- A check that raises. -/
def require {ε : Type} (p : Prop) [Decidable p] (e : ε) : Except ε Unit :=
  if p then .ok () else .error e

variable {ε : Type} {p : Prop} [Decidable p] {e : ε}

@[simp] theorem require_eq_ok {u : Unit} : require p e = .ok u ↔ p := by
  unfold require
  split
  · rename_i h
    simp [h]
  · rename_i h
    simp [h]

theorem require_of (h : p) : require p e = .ok () := if_pos h

end SparkCache
