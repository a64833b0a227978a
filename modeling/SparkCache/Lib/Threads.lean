import Mathlib.Algebra.BigOperators.Group.Finset.Basic
import Mathlib.Data.Fintype.Basic
import Mathlib.Data.Multiset.Basic
import Mathlib.Tactic

/-!
# Threads over a shared state

Every thread has a list of operations left to do. A step executes the first operation of one thread:
it changes the shared state and puts further operations before the thread's rest, or it cannot be
executed yet. Operations own resources; what the threads own together is accounted for as a multiset.
-/
namespace Threads
variable {ι Op σ R : Type*} [DecidableEq ι]

/-- What the threads share, and what each of them has left to do. -/
structure Config (ι Op σ : Type*) where
  shared : σ
  left : ι → List Op

/-- An operation that some thread has left to do. -/
def Config.Pending (c : Config ι Op σ) (op : Op) : Prop := ∃ i, op ∈ c.left i

/-- The same, apart from the first operation of a thread. -/
def Config.Others (c : Config ι Op σ) (i : ι) (op : Op) : Prop :=
  op ∈ (c.left i).tail ∨ ∃ j, j ≠ i ∧ op ∈ c.left j

/-- A thread goes on to a shared state with operations before its rest; an idle thread starts with them. -/
def Config.advance (c : Config ι Op σ) (i : ι) (shared : σ) (more : List Op) : Config ι Op σ :=
  ⟨shared, Function.update c.left i (more ++ (c.left i).tail)⟩

/-- One step of a thread. A thread without operations, or whose operation has to wait, stays as it is. -/
def Config.exec (effect : Op → σ → Option (σ × List Op)) (c : Config ι Op σ) (i : ι) : Config ι Op σ :=
  match c.left i with
  | [] => c
  | op :: _ =>
      match effect op c.shared with
      | none => c
      | some (shared, more) => c.advance i shared more

/-- What is kept by every operation that is executed is kept by a step. -/
theorem Config.exec_induction {effect : Op → σ → Option (σ × List Op)} {p : Config ι Op σ → Prop}
    {c : Config ι Op σ} {i : ι} (hstay : p c)
    (hadvance : ∀ op rest shared more, c.left i = op :: rest → effect op c.shared = some (shared, more) →
      p (c.advance i shared more)) : p (c.exec effect i) := by
  unfold Config.exec
  split
  · exact hstay
  · rename_i op rest hleft
    split
    · exact hstay
    · rename_i shared more heffect
      exact hadvance op rest shared more hleft heffect

@[simp] theorem Config.advance_shared (c : Config ι Op σ) (i : ι) (shared : σ) (more : List Op) :
    (c.advance i shared more).shared = shared := rfl

@[simp] theorem Config.advance_left_self (c : Config ι Op σ) (i : ι) (shared : σ) (more : List Op) :
    (c.advance i shared more).left i = more ++ (c.left i).tail :=
  Function.update_self ..

theorem Config.advance_left_of_ne {i j : ι} (h : j ≠ i) (c : Config ι Op σ) (shared : σ) (more : List Op) :
    (c.advance i shared more).left j = c.left j :=
  Function.update_of_ne h ..

theorem Config.pending_advance {c : Config ι Op σ} {i : ι} {shared : σ} {more : List Op} {op : Op} :
    (c.advance i shared more).Pending op ↔ op ∈ more ∨ c.Others i op := by
  constructor
  · rintro ⟨j, hj⟩
    by_cases heq : j = i
    · subst heq
      rw [Config.advance_left_self, List.mem_append] at hj
      exact hj.imp_right Or.inl
    · rw [Config.advance_left_of_ne heq] at hj
      exact Or.inr (Or.inr ⟨j, heq, hj⟩)
  · rintro (hmore | htail | ⟨j, hne, hj⟩)
    · exact ⟨i, by rw [Config.advance_left_self]; exact List.mem_append_left _ hmore⟩
    · exact ⟨i, by rw [Config.advance_left_self]; exact List.mem_append_right _ htail⟩
    · exact ⟨j, by rw [Config.advance_left_of_ne hne]; exact hj⟩

omit [DecidableEq ι] in
theorem Config.Others.pending {c : Config ι Op σ} {i : ι} {op : Op} (h : c.Others i op) : c.Pending op := by
  obtain htail | ⟨j, -, hj⟩ := h
  · exact ⟨i, List.mem_of_mem_tail htail⟩
  · exact ⟨j, hj⟩

/-- What is pending is the first operation of a thread, or something else. -/
theorem Config.Pending.eq_or_others {c : Config ι Op σ} {i : ι} {first op : Op} {rest : List Op}
    (hleft : c.left i = first :: rest) (h : c.Pending op) : op = first ∨ c.Others i op := by
  obtain ⟨j, hj⟩ := h
  by_cases heq : j = i
  · subst heq
    rw [hleft, List.mem_cons] at hj
    refine hj.imp_right fun hrest => Or.inl ?_
    rw [hleft]
    exact hrest
  · exact Or.inr (Or.inr ⟨j, heq, hj⟩)

omit [DecidableEq ι] in
theorem Config.Pending.others_of_idle {c : Config ι Op σ} {i : ι} {op : Op} (hleft : c.left i = [])
    (h : c.Pending op) : c.Others i op := by
  obtain ⟨j, hj⟩ := h
  refine Or.inr ⟨j, ?_, hj⟩
  rintro rfl
  rw [hleft] at hj
  cases hj

/-- What stays pending when a thread advances. -/
theorem Config.Pending.advance {c : Config ι Op σ} {i : ι} {first op : Op} {rest more : List Op} {shared : σ}
    (hleft : c.left i = first :: rest) (h : c.Pending op) :
    op = first ∨ (c.advance i shared more).Pending op :=
  (h.eq_or_others hleft).imp_right fun hothers => Config.pending_advance.mpr (Or.inr hothers)

/-! ## Resources -/

section Resources
variable [Fintype ι] (owned : Op → Multiset R)

/-- What a list of operations owns. -/
def ownedBy (ops : List Op) : Multiset R := (ops.map owned).sum

@[simp] theorem ownedBy_nil : ownedBy owned [] = 0 := rfl

@[simp] theorem ownedBy_cons (op : Op) (ops : List Op) :
    ownedBy owned (op :: ops) = owned op + ownedBy owned ops := by
  rw [ownedBy, List.map_cons, List.sum_cons, ownedBy]

@[simp] theorem ownedBy_append (xs ys : List Op) :
    ownedBy owned (xs ++ ys) = ownedBy owned xs + ownedBy owned ys := by
  rw [ownedBy, List.map_append, List.sum_append, ownedBy, ownedBy]

/-- What all the threads own. -/
def Config.holdings (c : Config ι Op σ) : Multiset R := ∑ i, ownedBy owned (c.left i)

theorem Config.holdings_update (c : Config ι Op σ) (i : ι) (ops : List Op) (shared : σ) :
    Config.holdings owned ⟨shared, Function.update c.left i ops⟩ + ownedBy owned (c.left i) =
      c.holdings owned + ownedBy owned ops := by
  unfold Config.holdings
  dsimp only
  rw [← Finset.add_sum_erase _ _ (Finset.mem_univ i), ← Finset.add_sum_erase Finset.univ (fun j => ownedBy owned (c.left j))
    (Finset.mem_univ i)]
  have hrest : ∑ j ∈ Finset.univ.erase i, ownedBy owned (Function.update c.left i ops j) =
      ∑ j ∈ Finset.univ.erase i, ownedBy owned (c.left j) :=
    Finset.sum_congr rfl fun j hj => by rw [Function.update_of_ne (Finset.ne_of_mem_erase hj)]
  rw [hrest, Function.update_self]
  abel

/-- An operation hands what it owns over to those that follow it. -/
theorem Config.holdings_advance {c : Config ι Op σ} {i : ι} {op : Op} {rest : List Op} (hleft : c.left i = op :: rest)
    (shared : σ) (more : List Op) :
    (c.advance i shared more).holdings owned + owned op = c.holdings owned + ownedBy owned more := by
  have hupdate := c.holdings_update owned i (more ++ rest) shared
  rw [hleft, ownedBy_cons, ownedBy_append, ← add_assoc, ← add_assoc] at hupdate
  rw [Config.advance, hleft, List.tail_cons]
  exact add_right_cancel hupdate

theorem Config.holdings_advance_idle {c : Config ι Op σ} {i : ι} (hleft : c.left i = [])
    (shared : σ) (more : List Op) :
    (c.advance i shared more).holdings owned = c.holdings owned + ownedBy owned more := by
  have hupdate := c.holdings_update owned i more shared
  rw [hleft, ownedBy_nil, add_zero] at hupdate
  rwa [Config.advance, hleft, List.tail_nil, List.append_nil]

theorem owned_le_ownedBy {op : Op} {ops : List Op} (h : op ∈ ops) : owned op ≤ ownedBy owned ops := by
  induction ops with
  | nil => cases h
  | cons first rest ih =>
      rw [ownedBy_cons]
      obtain rfl | hrest := List.mem_cons.mp h
      · exact Multiset.le_add_right _ _
      · exact (ih hrest).trans (Multiset.le_add_left _ _)

theorem Config.Pending.le_holdings {c : Config ι Op σ} {op : Op} (h : c.Pending op) : owned op ≤ c.holdings owned := by
  obtain ⟨i, hi⟩ := h
  rw [Config.holdings, ← Finset.add_sum_erase _ _ (Finset.mem_univ i)]
  exact (owned_le_ownedBy owned hi).trans (Multiset.le_add_right _ _)

theorem mem_ownedBy {r : R} {ops : List Op} : r ∈ ownedBy owned ops ↔ ∃ op ∈ ops, r ∈ owned op := by
  induction ops with
  | nil => simp
  | cons first rest ih => rw [ownedBy_cons, Multiset.mem_add, ih, List.exists_mem_cons_iff]

omit [DecidableEq ι] in
theorem Config.mem_holdings {c : Config ι Op σ} {r : R} : r ∈ c.holdings owned ↔ ∃ op, c.Pending op ∧ r ∈ owned op := by
  rw [Config.holdings, Multiset.mem_sum]
  constructor
  · rintro ⟨i, -, hi⟩
    obtain ⟨op, hop, hr⟩ := (mem_ownedBy owned).mp hi
    exact ⟨op, ⟨i, hop⟩, hr⟩
  · rintro ⟨op, ⟨i, hop⟩, hr⟩
    exact ⟨i, Finset.mem_univ i, (mem_ownedBy owned).mpr ⟨op, hop, hr⟩⟩

/-- The first operation of a thread and another one own their resources side by side. -/
theorem Config.Others.le_holdings {c : Config ι Op σ} {i : ι} {first op : Op} {rest : List Op}
    (hleft : c.left i = first :: rest) (h : c.Others i op) : owned first + owned op ≤ c.holdings owned := by
  rw [Config.holdings, ← Finset.add_sum_erase _ _ (Finset.mem_univ i), hleft, ownedBy_cons]
  obtain htail | ⟨j, hne, hj⟩ := h
  · rw [hleft, List.tail_cons] at htail
    exact (add_le_add_right (owned_le_ownedBy owned htail) _).trans (Multiset.le_add_right _ _)
  · rw [add_assoc]
    refine add_le_add_right ?_ _
    have hmem : j ∈ Finset.univ.erase i := Finset.mem_erase.mpr ⟨hne, Finset.mem_univ j⟩
    rw [← Finset.add_sum_erase _ _ hmem]
    exact (owned_le_ownedBy owned hj).trans ((Multiset.le_add_right _ _).trans (Multiset.le_add_left _ _))

end Resources

end Threads
