import Mathlib.Tactic

/-!
# Fixed-width machines

Computations in fixed-width arithmetic. An operation that wraps, and a read outside an array,
give the machine's value and leave a mark. A computation agrees with one over unbounded
numbers if both return related values or both fail, and the machine's has no mark.
-/

/-- What a computation returns or raises, and whether one of its operations wrapped or read
outside an array. -/
structure Machine (ε α : Type) where
  outcome : Except ε α
  faulted : Bool

namespace Machine
variable {ε δ α β σ τ : Type} {w : ℕ}

@[ext] theorem ext {x y : Machine ε α} (houtcome : x.outcome = y.outcome)
    (hfaulted : x.faulted = y.faulted) : x = y := by
  cases x
  cases y
  simp only at houtcome hfaulted
  rw [houtcome, hfaulted]

def raise (e : ε) : Machine ε α := ⟨.error e, false⟩

/-- The rest of a computation, with the marks of both. -/
def andThen (x : Machine ε α) (f : α → Machine ε β) : Machine ε β :=
  match x.outcome with
  | .error e => ⟨.error e, x.faulted⟩
  | .ok a => ⟨(f a).outcome, x.faulted || (f a).faulted⟩

instance : Monad (Machine ε) where
  pure a := ⟨.ok a, false⟩
  bind := andThen

@[simp] theorem pure_bind (a : α) (f : α → Machine ε β) : (pure a >>= f) = f a := by
  ext1
  · rfl
  · exact Bool.false_or _

theorem bind_assoc {γ : Type} (x : Machine ε α) (f : α → Machine ε β) (g : β → Machine ε γ) :
    (x >>= f >>= g) = x >>= fun a => f a >>= g := by
  obtain ⟨outcome, faulted⟩ := x
  cases outcome with
  | error e => rfl
  | ok a =>
      show andThen (andThen ⟨.ok a, faulted⟩ f) g = andThen ⟨.ok a, faulted⟩ fun a => andThen (f a) g
      simp only [andThen]
      cases (f a).outcome with
      | error e => rfl
      | ok b => simp only [Bool.or_assoc]

@[simp] theorem raise_bind (e : ε) (f : α → Machine ε β) : (raise e >>= f) = raise e := rfl

def require (p : Prop) [Decidable p] (e : ε) : Machine ε Unit := if p then pure () else raise e

/-- The same run with another error. -/
def mapError (x : Machine ε α) (f : ε → δ) : Machine δ α := ⟨x.outcome.mapError f, x.faulted⟩

theorem require_pos {p : Prop} [Decidable p] (h : p) (e : ε) : require p e = pure () := if_pos h

theorem require_neg {p : Prop} [Decidable p] (h : ¬p) (e : ε) : require p e = raise e := if_neg h

theorem require_congr {p q : Prop} [Decidable p] [Decidable q] (h : p ↔ q) (e : ε) :
    require p e = require q e := by
  by_cases hp : p
  · rw [require_pos hp, require_pos (h.mp hp)]
  · rw [require_neg hp, require_neg fun hq => hp (h.mpr hq)]

/-! ## Operations -/

def add (a b : BitVec w) : Machine ε (BitVec w) := ⟨.ok (a + b), decide (2 ^ w ≤ a.toNat + b.toNat)⟩

def sub (a b : BitVec w) : Machine ε (BitVec w) := ⟨.ok (a - b), decide (a.toNat < b.toNat)⟩

def mul (a b : BitVec w) : Machine ε (BitVec w) := ⟨.ok (a * b), decide (2 ^ w ≤ a.toNat * b.toNat)⟩

def div (a b : BitVec w) : Machine ε (BitVec w) := ⟨.ok (a / b), decide (b = 0)⟩

def mod (a b : BitVec w) : Machine ε (BitVec w) := ⟨.ok (a % b), decide (b = 0)⟩

/-- A cast to a narrower width. -/
def narrow (v : ℕ) (a : BitVec w) : Machine ε (BitVec v) := ⟨.ok (a.setWidth v), decide (2 ^ v ≤ a.toNat)⟩

/-- A read of an array. -/
def read [Inhabited α] (xs : List α) (i : BitVec w) : Machine ε α :=
  ⟨.ok (xs.getD i.toNat default), decide (xs.length ≤ i.toNat)⟩

def write (xs : List α) (i : BitVec w) (a : α) : Machine ε (List α) :=
  ⟨.ok (xs.set i.toNat a), decide (xs.length ≤ i.toNat)⟩

theorem add_eq {a b : BitVec w} (h : a.toNat + b.toNat < 2 ^ w) :
    ∃ c : BitVec w, c.toNat = a.toNat + b.toNat ∧ (add a b : Machine ε (BitVec w)) = pure c := by
  refine ⟨a + b, ?_, ?_⟩
  · rw [BitVec.toNat_add, Nat.mod_eq_of_lt h]
  · ext1
    · rfl
    · exact decide_eq_false (by omega)

theorem sub_eq {a b : BitVec w} (h : b.toNat ≤ a.toNat) :
    ∃ c : BitVec w, c.toNat = a.toNat - b.toNat ∧ (sub a b : Machine ε (BitVec w)) = pure c := by
  refine ⟨a - b, BitVec.toNat_sub_of_le h, ?_⟩
  ext1
  · rfl
  · exact decide_eq_false (by omega)

theorem mul_eq {a b : BitVec w} (h : a.toNat * b.toNat < 2 ^ w) :
    ∃ c : BitVec w, c.toNat = a.toNat * b.toNat ∧ (mul a b : Machine ε (BitVec w)) = pure c := by
  refine ⟨a * b, ?_, ?_⟩
  · rw [BitVec.toNat_mul, Nat.mod_eq_of_lt h]
  · ext1
    · rfl
    · exact decide_eq_false (by omega)

theorem read_eq [Inhabited α] {xs : List α} {i : BitVec w} (h : i.toNat < xs.length) (d : α) :
    (read xs i : Machine ε α) = pure (xs.getD i.toNat d) := by
  ext1
  · show Except.ok (xs.getD i.toNat default) = Except.ok (xs.getD i.toNat d)
    rw [List.getD_eq_getElem?_getD, List.getD_eq_getElem?_getD, List.getElem?_eq_getElem h,
      Option.getD_some, Option.getD_some]
  · exact decide_eq_false (by omega)

theorem write_eq {xs : List α} {i : BitVec w} (h : i.toNat < xs.length) (a : α) :
    (write xs i a : Machine ε (List α)) = pure (xs.set i.toNat a) := by
  ext1
  · rfl
  · exact decide_eq_false (by omega)

/-- If `p` holds it returns a value with `Q`, otherwise it raises. It has no mark. -/
def Returns (x : Machine ε α) (p : Prop) (Q : α → Prop) : Prop :=
  (p → ∃ a, x = pure a ∧ Q a) ∧ (¬p → ∃ e, x = raise e)

theorem Returns.of_pure {p : Prop} {Q : α → Prop} {a : α} (hp : p) (ha : Q a) :
    (pure a : Machine ε α).Returns p Q :=
  ⟨fun _ => ⟨a, rfl, ha⟩, fun h => absurd hp h⟩

theorem Returns.of_raise {p : Prop} {Q : α → Prop} {e : ε} (hp : ¬p) :
    (raise e : Machine ε α).Returns p Q :=
  ⟨fun h => absurd h hp, fun _ => ⟨e, rfl⟩⟩

/-! ## Agreement -/

/-- Both return, related values; or both fail. The machine has no mark. -/
def Agrees (R : σ → τ → Prop) (x : Except δ σ) (y : Machine ε τ) : Prop :=
  match x with
  | .ok s => ∃ t, y = pure t ∧ R s t
  | .error _ => ∃ e, y = raise e

theorem Agrees.of_ok {R : σ → τ → Prop} {x : Except δ σ} {s : σ} {t : τ} (h : x = .ok s)
    (hst : R s t) : Agrees R x (pure t : Machine ε τ) := by
  rw [h]
  exact ⟨t, rfl, hst⟩

theorem Agrees.of_refused {R : σ → τ → Prop} {x : Except δ σ} (h : ∀ s, x ≠ .ok s) (e : ε) :
    Agrees R x (raise e : Machine ε τ) := by
  cases x with
  | error e' => exact ⟨e, rfl⟩
  | ok s => exact absurd rfl (h s)

theorem Agrees.bind {ρ υ : Type} {R : σ → τ → Prop} {S : ρ → υ → Prop} {x : Except δ σ}
    {y : Machine ε τ} {f : σ → Except δ ρ} {g : τ → Machine ε υ} (h : Agrees R x y)
    (hrest : ∀ s t, x = .ok s → R s t → Agrees S (f s) (g t)) : Agrees S (x >>= f) (y >>= g) := by
  cases x with
  | error e =>
      obtain ⟨e', rfl⟩ := h
      exact ⟨e', raise_bind e' g⟩
  | ok s =>
      obtain ⟨t, rfl, hst⟩ := h
      rw [pure_bind]
      exact hrest s t rfl hst

theorem Agrees.map_left {ρ : Type} {R : σ → τ → Prop} {S : ρ → τ → Prop} {x : Except δ σ}
    {y : Machine ε τ} {f : σ → ρ} (h : Agrees R x y) (hmap : ∀ s t, R s t → S (f s) t) :
    Agrees S (x >>= fun s => .ok (f s)) y := by
  cases x with
  | error e => exact h
  | ok s =>
      obtain ⟨t, ht, hst⟩ := h
      exact ⟨t, ht, hmap s t hst⟩

theorem Agrees.weaken {R S : σ → τ → Prop} {x : Except δ σ} {y : Machine ε τ} (h : Agrees R x y)
    (hweaker : ∀ s t, x = .ok s → R s t → S s t) : Agrees S x y := by
  cases x with
  | error e => exact h
  | ok s =>
      obtain ⟨t, ht, hst⟩ := h
      exact ⟨t, ht, hweaker s t rfl hst⟩

theorem Agrees.not_faulted {R : σ → τ → Prop} {x : Except δ σ} {y : Machine ε τ}
    (h : Agrees R x y) : y.faulted = false := by
  cases x with
  | error e =>
      obtain ⟨e', rfl⟩ := h
      rfl
  | ok s =>
      obtain ⟨t, rfl, -⟩ := h
      rfl

/-- One accepts exactly when the other does. -/
theorem Agrees.accepts {R : σ → τ → Prop} {x : Except δ σ} {y : Machine ε τ} (h : Agrees R x y) :
    (∃ s, x = .ok s) ↔ ∃ t, y.outcome = .ok t := by
  cases x with
  | error e =>
      obtain ⟨e', rfl⟩ := h
      constructor
      · rintro ⟨s, hs⟩
        cases hs
      · rintro ⟨t, ht⟩
        cases ht
  | ok s =>
      obtain ⟨t, rfl, -⟩ := h
      exact ⟨fun _ => ⟨t, rfl⟩, fun _ => ⟨s, rfl⟩⟩

theorem Agrees.result {R : σ → τ → Prop} {s : σ} {y : Machine ε τ}
    (h : Agrees (δ := δ) R (.ok s) y) : ∃ t, y.outcome = .ok t ∧ R s t := by
  obtain ⟨t, rfl, hst⟩ := h
  exact ⟨t, rfl, hst⟩

/-! ## Rules for runs -/

/-- It returns a value with `Q`, without a mark. -/
def Runs (x : Machine ε α) (Q : α → Prop) : Prop := ∃ a, x = pure a ∧ Q a

/-- It has no mark, and if it returns, a value with `Q`. -/
def Safe (x : Machine ε α) (Q : α → Prop) : Prop := x.faulted = false ∧ ∀ a, x.outcome = .ok a → Q a

theorem Runs.safe {x : Machine ε α} {Q : α → Prop} (h : x.Runs Q) : x.Safe Q := by
  obtain ⟨a, rfl, ha⟩ := h
  refine ⟨rfl, fun b hb => ?_⟩
  cases hb
  exact ha

theorem Runs.pure {a : α} {Q : α → Prop} (h : Q a) : (Pure.pure a : Machine ε α).Runs Q := ⟨a, rfl, h⟩

theorem Runs.bind {x : Machine ε α} {f : α → Machine ε β} {Q : α → Prop} {R : β → Prop} (h : x.Runs Q)
    (hf : ∀ a, Q a → (f a).Runs R) : (x >>= f).Runs R := by
  obtain ⟨a, rfl, ha⟩ := h
  rw [pure_bind]
  exact hf a ha

theorem Safe.pure {a : α} {Q : α → Prop} (h : Q a) : (Pure.pure a : Machine ε α).Safe Q := (Runs.pure h).safe

theorem Safe.raise (e : ε) {Q : α → Prop} : (Machine.raise e : Machine ε α).Safe Q :=
  ⟨rfl, fun _ ha => by cases ha⟩

theorem Safe.bind {x : Machine ε α} {f : α → Machine ε β} {Q : α → Prop} {R : β → Prop} (h : x.Safe Q)
    (hf : ∀ a, Q a → (f a).Safe R) : (x >>= f).Safe R := by
  obtain ⟨outcome, faulted⟩ := x
  obtain ⟨hfaulted, hvalue⟩ := h
  cases outcome with
  | error e => exact ⟨hfaulted, fun _ hb => by cases hb⟩
  | ok a =>
      obtain ⟨hclean, hresult⟩ := hf a (hvalue a rfl)
      refine ⟨?_, hresult⟩
      show (faulted || (f a).faulted) = false
      rw [hclean, Bool.or_false]
      exact hfaulted

theorem Safe.weaken {x : Machine ε α} {Q R : α → Prop} (h : x.Safe Q) (hweaker : ∀ a, Q a → R a) : x.Safe R :=
  ⟨h.1, fun a ha => hweaker a (h.2 a ha)⟩

theorem Safe.require (p : Prop) [Decidable p] (e : ε) : (Machine.require p e).Safe fun _ => p := by
  by_cases h : p
  · rw [require_pos h]
    exact Safe.pure h
  · rw [require_neg h]
    exact Safe.raise e

theorem Runs.require {p : Prop} [Decidable p] (h : p) (e : ε) : (Machine.require p e).Runs fun _ => p :=
  ⟨(), require_pos h e, h⟩

theorem runs_add {a b : BitVec w} (h : a.toNat + b.toNat < 2 ^ w) :
    (add a b : Machine ε (BitVec w)).Runs fun c => c.toNat = a.toNat + b.toNat := by
  obtain ⟨c, hc, heq⟩ := add_eq (ε := ε) h
  exact ⟨c, heq, hc⟩

theorem runs_sub {a b : BitVec w} (h : b.toNat ≤ a.toNat) :
    (sub a b : Machine ε (BitVec w)).Runs fun c => c.toNat = a.toNat - b.toNat := by
  obtain ⟨c, hc, heq⟩ := sub_eq (ε := ε) h
  exact ⟨c, heq, hc⟩

theorem runs_mul {a b : BitVec w} (h : a.toNat * b.toNat < 2 ^ w) :
    (mul a b : Machine ε (BitVec w)).Runs fun c => c.toNat = a.toNat * b.toNat := by
  obtain ⟨c, hc, heq⟩ := mul_eq (ε := ε) h
  exact ⟨c, heq, hc⟩

theorem runs_div {a b : BitVec w} (h : 0 < b.toNat) :
    (div a b : Machine ε (BitVec w)).Runs fun c => c.toNat = a.toNat / b.toNat := by
  refine ⟨a / b, ?_, BitVec.toNat_udiv⟩
  ext1
  · rfl
  · refine decide_eq_false fun hzero => ?_
    rw [hzero] at h
    simp at h

theorem runs_mod {a b : BitVec w} (h : 0 < b.toNat) :
    (mod a b : Machine ε (BitVec w)).Runs fun c => c.toNat = a.toNat % b.toNat := by
  refine ⟨a % b, ?_, BitVec.toNat_umod⟩
  ext1
  · rfl
  · refine decide_eq_false fun hzero => ?_
    rw [hzero] at h
    simp at h

theorem runs_narrow {v : ℕ} {a : BitVec w} (h : a.toNat < 2 ^ v) :
    (narrow v a : Machine ε (BitVec v)).Runs fun c => c.toNat = a.toNat := by
  refine ⟨a.setWidth v, ?_, ?_⟩
  · ext1
    · rfl
    · exact decide_eq_false (Nat.not_le.mpr h)
  · show (a.setWidth v).toNat = a.toNat
    rw [BitVec.toNat_setWidth, Nat.mod_eq_of_lt h]

theorem runs_read [Inhabited α] {xs : List α} {i : BitVec w} (h : i.toNat < xs.length) :
    (read xs i : Machine ε α).Runs fun a => xs[i.toNat]? = some a := by
  refine ⟨xs[i.toNat], ?_, List.getElem?_eq_getElem h⟩
  rw [read_eq h default, List.getD_eq_getElem?_getD, List.getElem?_eq_getElem h, Option.getD_some]

theorem runs_write {xs : List α} {i : BitVec w} (h : i.toNat < xs.length) (a : α) :
    (write xs i a : Machine ε (List α)).Runs fun ys => ys = xs.set i.toNat a :=
  ⟨_, write_eq h a, rfl⟩

/-- A loop over an array, with its index. -/
def forEach (f : BitVec w → α → σ → Machine ε σ) : BitVec w → List α → σ → Machine ε σ
  | _, [], s => Pure.pure s
  | i, a :: rest, s => do
      let s ← f i a s
      let next ← add i 1
      forEach f next rest s

/-- A loop that counts to a bound. -/
def forCount (count : BitVec w) (f : BitVec w → σ → Machine ε σ) (s : σ) : Machine ε σ :=
  forEach (fun i (_ : Unit) s => f i s) 0 (List.replicate count.toNat ()) s

theorem one_toNat (hw : 0 < w) : (1 : BitVec w).toNat = 1 := by
  have hlt : 1 < 2 ^ w := Nat.one_lt_two_pow (Nat.pos_iff_ne_zero.mp hw)
  simpa using Nat.mod_eq_of_lt hlt

/-- A reading of postconditions that holds of clean runs and respects sequencing. -/
structure Reading (ε : Type) where
  Holds : {α : Type} → Machine ε α → (α → Prop) → Prop
  of_runs : ∀ {α : Type} {x : Machine ε α} {Q : α → Prop}, x.Runs Q → Holds x Q
  bind : ∀ {α β : Type} {x : Machine ε α} {f : α → Machine ε β} {Q : α → Prop} {R : β → Prop}, Holds x Q →
    (∀ a, Q a → Holds (f a) R) → Holds (x >>= f) R

def Reading.safe : Reading ε := ⟨Safe, Runs.safe, Safe.bind⟩

def Reading.runs : Reading ε := ⟨Runs, id, Runs.bind⟩

/-- What a step keeps of the elements done so far and the state holds after the loop. -/
theorem Reading.forEach (reading : Reading ε) {f : BitVec w → α → σ → Machine ε σ} {items : List α}
    (I : List α → σ → Prop) (hw : 0 < w)
    (hstep : ∀ (i : BitVec w) done a rest s, items = done ++ a :: rest → i.toNat = done.length → I done s →
      reading.Holds (f i a s) (I (done ++ [a]))) (hfits : items.length < 2 ^ w) {s : σ} (hstart : I [] s) :
    reading.Holds (Machine.forEach f 0 items s) (I items) := by
  have hrun : ∀ (rest done : List α) (i : BitVec w) s, items = done ++ rest → i.toNat = done.length → I done s →
      reading.Holds (Machine.forEach f i rest s) (I items) := by
    intro rest
    induction rest with
    | nil =>
        intro done i s hitems _ hdone
        rw [hitems, List.append_nil]
        exact reading.of_runs (Runs.pure hdone)
    | cons a rest ih =>
        intro done i s hitems hi hdone
        have hone := one_toNat hw
        refine reading.bind (hstep i done a rest s hitems hi hdone) fun s' hs' => ?_
        have hbound : i.toNat + (1 : BitVec w).toNat < 2 ^ w := by
          rw [hitems, List.length_append, List.length_cons] at hfits
          omega
        refine reading.bind (reading.of_runs (runs_add hbound)) fun next hnext => ?_
        refine ih (done ++ [a]) next s' ?_ ?_ hs'
        · rw [hitems, List.append_assoc]
          rfl
        · rw [hnext, hone, hi, List.length_append, List.length_singleton]
  exact hrun items [] 0 s rfl (by simp) hstart

theorem Reading.forCount (reading : Reading ε) {f : BitVec w → σ → Machine ε σ} {count : BitVec w}
    (I : ℕ → σ → Prop) (hw : 0 < w)
    (hstep : ∀ (i : BitVec w) s, i.toNat < count.toNat → I i.toNat s → reading.Holds (f i s) (I (i.toNat + 1)))
    {s : σ} (hstart : I 0 s) : reading.Holds (Machine.forCount count f s) (I count.toNat) := by
  have hrun : reading.Holds (Machine.forEach (fun i (_ : Unit) s => f i s) 0 (List.replicate count.toNat ()) s)
      fun s => I (List.replicate count.toNat ()).length s := by
    refine reading.forEach (fun done s => I done.length s) hw ?_ ?_ hstart
    · intro i done a rest s hitems hi hdone
      have hlen := congrArg List.length hitems
      rw [List.length_replicate, List.length_append, List.length_cons] at hlen
      simp only [List.length_append, List.length_singleton, ← hi] at hdone ⊢
      exact hstep i s (by omega) hdone
    · rw [List.length_replicate]
      exact count.isLt
  rwa [List.length_replicate] at hrun

end Machine
