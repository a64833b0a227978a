import Mathlib.Data.Int.Log
import SparkCache.Json.Parse

/-!
# Equality of decoded values

Python's `==` on the values that the decoder returns. Numbers compare by value
whatever their type: `True`, `1` and `1.0` are equal. A literal with a fraction
or an exponent denotes the nearest double, ties to even.
-/
namespace SparkCache.Json

inductive Number where
  | rational (value : ℚ)
  | infinite (negative : Bool)
  | nan
  deriving DecidableEq

namespace Number

/-- Nothing equals a NaN. -/
def eq : Number → Number → Bool
  | nan, _ | _, nan => false
  | a, b => a = b

def roundHalfEven (q : ℚ) : ℤ :=
  let low := ⌊q⌋
  if q - low < 1 / 2 then low
  else if 1 / 2 < q - low then low + 1
  else if low % 2 = 0 then low else low + 1

/-- Round to 53 significant bits, with the least normal exponent of a double. -/
def nearestDouble (value : ℚ) : Number :=
  if value = 0 then rational 0
  else
    let unit : ℚ := 2 ^ (max (Int.log 2 |value|) (-1022) - 52)
    let rounded := roundHalfEven (value / unit) * unit
    if |rounded| < 2 ^ 1024 then rational rounded else infinite (value < 0)

/-- The exponent after `e` or `E`. -/
def literalExponent : List Char → ℤ
  | _ :: '-' :: digits => -(ofDecimal digits)
  | _ :: '+' :: digits => ofDecimal digits
  | _ :: digits => ofDecimal digits
  | [] => 0

/-- The exact value of an unsigned literal. -/
def literalValue (text : List Char) : ℚ :=
  let whole := text.takeWhile Char.isDigit
  let rest := text.dropWhile Char.isDigit
  let fraction := match rest with
    | '.' :: rest => rest.takeWhile Char.isDigit
    | _ => []
  let exponent : ℤ := match rest with
    | '.' :: rest => literalExponent (rest.dropWhile Char.isDigit)
    | rest => literalExponent rest
  ofDecimal (whole ++ fraction) * 10 ^ (exponent - fraction.length)

/-- `float(literal)` -/
def ofLiteral (literal : List Char) : Number :=
  if literal = "NaN".toList then nan
  else match literal with
    | '-' :: text => if text = "Infinity".toList then infinite true
        else nearestDouble (-literalValue text)
    | text => if text = "Infinity".toList then infinite false else nearestDouble (literalValue text)

end Number

/-- The value of a number; `bool` is a subtype of `int`. -/
def number? : Json → Option Number
  | .bool b => some (.rational (if b then 1 else 0))
  | .int n => some (.rational n)
  | .float literal => some (Number.ofLiteral literal)
  | _ => none

mutual
/-- `a == b` -/
def pyEq : Json → Json → Bool
  | .null, .null => true
  | .str s, .str t => s = t
  | .arr xs, .arr ys => pyEqItems xs ys
  | .obj xs, .obj ys => pyEqFields xs ys
  | a, b =>
      match a.number?, b.number? with
      | some m, some n => m.eq n
      | _, _ => false

def pyEqItems : List Json → List Json → Bool
  | [], [] => true
  | x :: xs, y :: ys => pyEq x y && pyEqItems xs ys
  | _, _ => false

def pyEqFields : List (Str × Json) → List (Str × Json) → Bool
  | [], [] => true
  | (k, x) :: xs, (l, y) :: ys => (k = l) && pyEq x y && pyEqFields xs ys
  | _, _ => false
end

example : pyEq (.arr [.bool true, .float "1e0".toList]) (.arr [.float "1.0".toList, .int 1]) =
    true := by decide +kernel

@[simp] theorem pyEq_int (m n : ℤ) : pyEq (.int m) (.int n) = decide (m = n) := by
  simp [pyEq, number?, Number.eq]

theorem pyEqItems_nats (values : List ℕ) : pyEqItems (nats values) (nats values) = true := by
  induction values with
  | nil => rfl
  | cons n rest ih =>
      unfold nats at ih ⊢
      simp [pyEqItems, ih]

@[simp] theorem pyEq_str (s t : Str) : pyEq (.str s) (.str t) = decide (s = t) := by
  simp [pyEq]

theorem pyEqFields_get? {k : Str} : (xs ys : List (Str × Json)) → pyEqFields xs ys = true →
    (getField k xs = none ∧ getField k ys = none) ∨
      ∃ x y, getField k xs = some x ∧ getField k ys = some y ∧ pyEq x y = true
  | [], [], _ => Or.inl ⟨rfl, rfl⟩
  | [], _ :: _, h => by simp [pyEqFields] at h
  | _ :: _, [], h => by simp [pyEqFields] at h
  | (a, x) :: xs, (b, y) :: ys, h => by
      simp only [pyEqFields, Bool.and_eq_true, decide_eq_true_eq] at h
      obtain ⟨⟨rfl, hxy⟩, hrest⟩ := h
      by_cases hk : k = a
      · exact Or.inr ⟨x, y, by simp [getField, hk], by simp [getField, hk], hxy⟩
      · simpa [getField, hk] using pyEqFields_get? xs ys hrest

/-- Equal dictionaries have equal values at every key. -/
theorem pyEq_get? {a b : Json} (h : pyEq a b = true) (ha : a.isObject = true) (k : Str) :
    (a.get? k = none ∧ b.get? k = none) ∨
      ∃ x y, a.get? k = some x ∧ b.get? k = some y ∧ pyEq x y = true := by
  cases a with
  | obj xs =>
      cases b with
      | obj ys => exact pyEqFields_get? xs ys (by simpa [pyEq] using h)
      | _ => simp [pyEq, number?] at h
  | _ => simp [isObject] at ha

end SparkCache.Json
