import Mathlib.Data.List.Basic
import Mathlib.Tactic

/-!
# UTF-8

The bytes of a sequence of code points. The first byte of a code point tells how many follow, so the
code points can be read back.
-/
namespace Utf8

/-- A byte that carries six bits and is not the first of its code point. -/
def tail (code : ℕ) : UInt8 := UInt8.ofNat (0x80 + code % 64)

def encodeCode (code : ℕ) : List UInt8 :=
  if code < 0x80 then [UInt8.ofNat code]
  else if code < 0x800 then [UInt8.ofNat (0xc0 + code / 64), tail code]
  else if code < 0x10000 then [UInt8.ofNat (0xe0 + code / 4096), tail (code / 64), tail code]
  else [UInt8.ofNat (0xf0 + code / 262144), tail (code / 4096), tail (code / 64), tail code]

def encode (codes : List ℕ) : List UInt8 := codes.flatMap encodeCode

theorem ofNat_inj {m n : ℕ} (hm : m < 256) (hn : n < 256) : UInt8.ofNat m = UInt8.ofNat n ↔ m = n := by
  constructor
  · intro h
    have hvalue := congrArg UInt8.toNat h
    rw [UInt8.toNat_ofNat', UInt8.toNat_ofNat'] at hvalue
    omega
  · intro h
    rw [h]

theorem tail_inj {m n : ℕ} : tail m = tail n ↔ m % 64 = n % 64 := by
  rw [tail, tail, ofNat_inj (by omega) (by omega)]
  omega

theorem encodeCode_ne_nil (code : ℕ) : encodeCode code ≠ [] := by
  unfold encodeCode
  split_ifs
  all_goals exact List.cons_ne_nil _ _

/-- No code point's bytes begin another's. -/
theorem encodeCode_append_inj {code code' : ℕ} (h : code < 0x110000) (h' : code' < 0x110000)
    {rest rest' : List UInt8} (heq : encodeCode code ++ rest = encodeCode code' ++ rest') :
    code = code' ∧ rest = rest' := by
  unfold encodeCode at heq
  split_ifs at heq
  all_goals
    simp only [List.cons_append, List.nil_append, List.cons.injEq, tail_inj] at heq
    rw [ofNat_inj (by omega) (by omega)] at heq
  -- The first bytes of code points of different lengths differ.
  all_goals first
    | exact absurd heq.1 (by omega)
    | exact ⟨by omega, heq.2⟩
    | exact ⟨by omega, heq.2.2⟩
    | exact ⟨by omega, heq.2.2.2⟩
    | exact ⟨by omega, heq.2.2.2.2⟩

theorem encode_injective {codes codes' : List ℕ} (h : ∀ code ∈ codes, code < 0x110000)
    (h' : ∀ code ∈ codes', code < 0x110000) (heq : encode codes = encode codes') : codes = codes' := by
  induction codes generalizing codes' with
  | nil =>
      cases codes' with
      | nil => rfl
      | cons code rest =>
          rw [encode, encode, List.flatMap_nil, List.flatMap_cons] at heq
          exact absurd (List.append_eq_nil_iff.mp heq.symm).1 (encodeCode_ne_nil code)
  | cons code rest ih =>
      cases codes' with
      | nil =>
          rw [encode, encode, List.flatMap_nil, List.flatMap_cons] at heq
          exact absurd (List.append_eq_nil_iff.mp heq).1 (encodeCode_ne_nil code)
      | cons code' rest' =>
          rw [List.forall_mem_cons] at h h'
          rw [encode, encode, List.flatMap_cons, List.flatMap_cons] at heq
          obtain ⟨rfl, hrest⟩ := encodeCode_append_inj h.1 h'.1 heq
          rw [ih h.2 h'.2 hrest]

end Utf8
