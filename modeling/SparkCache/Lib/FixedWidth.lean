import Mathlib.Data.List.Basic
import Mathlib.Tactic

/-!
# Fixed-width unsigned integers

A natural number below `256 ^ width` and its bytes, least significant first.
The big-endian form is the reverse.
-/
namespace FixedWidth

def little : ℕ → ℕ → List UInt8
  | 0, _ => []
  | width + 1, n => UInt8.ofNat n :: little width (n / 256)

def value : List UInt8 → ℕ
  | [] => 0
  | b :: rest => b.toNat + 256 * value rest

def big (width n : ℕ) : List UInt8 := (little width n).reverse

def bigValue (bytes : List UInt8) : ℕ := value bytes.reverse

@[simp] theorem little_length (width n : ℕ) : (little width n).length = width := by
  induction width generalizing n with
  | zero => rfl
  | succ width ih => simp [little, ih]

@[simp] theorem big_length (width n : ℕ) : (big width n).length = width := by
  simp [big]

theorem value_little (width n : ℕ) (h : n < 256 ^ width) : value (little width n) = n := by
  induction width generalizing n with
  | zero =>
      rw [pow_zero] at h
      simp only [little, value]
      omega
  | succ width ih =>
      rw [pow_succ] at h
      have hq : n / 256 < 256 ^ width := by omega
      simp only [little, value, ih _ hq, UInt8.toNat_ofNat']
      omega

theorem bigValue_big (width n : ℕ) (h : n < 256 ^ width) : bigValue (big width n) = n := by
  rw [bigValue, big, List.reverse_reverse, value_little width n h]

theorem little_value (bytes : List UInt8) : little bytes.length (value bytes) = bytes := by
  induction bytes with
  | nil => rfl
  | cons b rest ih =>
      have hb := b.toNat_lt
      have hbyte : UInt8.ofNat (b.toNat + 256 * value rest) = b := by
        rw [← UInt8.toNat_inj, UInt8.toNat_ofNat']
        omega
      have hquotient : (b.toNat + 256 * value rest) / 256 = value rest := by omega
      rw [List.length_cons, value, little, hbyte, hquotient, ih]

theorem big_bigValue (bytes : List UInt8) : big bytes.length (bigValue bytes) = bytes := by
  have hback := little_value bytes.reverse
  rw [List.length_reverse] at hback
  rw [big, bigValue, hback, List.reverse_reverse]

end FixedWidth
