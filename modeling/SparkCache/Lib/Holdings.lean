import Mathlib.Algebra.BigOperators.Group.Multiset.Basic
import SparkCache.Lib.Dictionary

/-!
# What the entries of a dictionary hold

Every entry of a dictionary holds a multiset of resources. What all of them hold changes with an entry
by what that entry holds.
-/
namespace AList
variable {κ V R : Type*}

/-- What all the entries hold. -/
def holdings (held : κ → V → Multiset R) (d : Dictionary κ V) : Multiset R :=
  (d.entries.map fun e => held e.1 e.2).sum

variable {held : κ → V → Multiset R}

@[simp] theorem holdings_empty : holdings held ∅ = 0 := rfl

variable [DecidableEq κ] {d : Dictionary κ V} {k : κ} {v w : V}

theorem holdings_of_lookup (h : d.lookup k = some v) : d.holdings held = held k v + (d.erase k).holdings held := by
  obtain ⟨newer, older, hd, he⟩ := entries_of_lookup h
  simp only [holdings, hd, he, List.map_append, List.map_cons, List.sum_append, List.sum_cons]
  rw [add_left_comm]

theorem holdings_insert (held : κ → V → Multiset R) (d : Dictionary κ V) (k : κ) (v : V) :
    (d.insert k v).holdings held = held k v + (d.erase k).holdings held := by
  simp only [holdings, entries_insert, List.map_cons, List.sum_cons]
  rfl

theorem holdings_erase_of_none (h : d.lookup k = none) : (d.erase k).holdings held = d.holdings held := by
  rw [erase_of_lookup_none h]

theorem holdings_insert_of_none (h : d.lookup k = none) :
    (d.insert k v).holdings held = held k v + d.holdings held := by
  rw [holdings_insert, holdings_erase_of_none h]

theorem le_holdings (h : d.lookup k = some v) : held k v ≤ d.holdings held := by
  rw [holdings_of_lookup h]
  exact Multiset.le_add_right _ _

end AList
