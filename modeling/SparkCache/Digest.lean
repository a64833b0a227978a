import SparkCache.Json.RoundTrip
import SparkCache.Lib.Sha256

/-!
# Lowercase hexadecimal names

Digests and transaction names are strings of a fixed number of lowercase
hexadecimal digits. A value of type `Hex n` carries the check that the source
makes with a regular expression.
-/
namespace SparkCache

/-- `[0-9a-f]` -/
def isHexCode (code : ℕ) : Bool := (48 ≤ code && code ≤ 57) || (97 ≤ code && code ≤ 102)

theorem isHexCode_zero : isHexCode 48 = true := by decide

/-- `re.fullmatch("[0-9a-f]{n}", s)` -/
def Str.isHex (n : ℕ) (s : Str) : Bool := s.codes.length = n && s.codes.all isHexCode

structure Hex (n : ℕ) where
  text : Str
  valid : text.isHex n = true
  deriving DecidableEq, Repr

abbrev Digest := Hex 64

namespace Hex
variable {n : ℕ}

theorem ext {a b : Hex n} (h : a.text = b.text) : a = b := by
  cases a
  cases b
  cases h
  rfl

def ofStr? (s : Str) : Option (Hex n) :=
  if h : s.isHex n = true then some ⟨s, h⟩ else none

/-- `isinstance(value, str)` and the pattern matches. -/
def ofJson? : Json → Option (Hex n)
  | .str s => ofStr? s
  | _ => none

def json (h : Hex n) : Json := .str h.text

@[simp] theorem ofJson?_json (h : Hex n) : ofJson? h.json = some h := by
  simp [json, ofJson?, ofStr?, h.valid]

theorem ofJson?_eq_some {v : Json} {h : Hex n} : ofJson? v = some h ↔ v = h.json := by
  constructor
  · intro hv
    cases v with
    | str s =>
        simp only [ofJson?, ofStr?] at hv
        split at hv
        · rw [← Option.some.inj hv]
          rfl
        · exact absurd hv (by simp)
    | _ => exact absurd hv (by simp [ofJson?])
  · rintro rfl
    exact ofJson?_json h

theorem encodable (h : Hex n) : h.text.encodable = true := by
  have hv := h.valid
  simp only [Str.isHex, Bool.and_eq_true, List.all_eq_true] at hv
  simp only [Str.encodable, List.all_eq_true]
  intro code hc
  have := hv.2 code hc
  simp only [isHexCode, Str.isScalar, Bool.or_eq_true, Bool.and_eq_true, decide_eq_true_eq] at *
  omega

/-- The same digit `n` times. -/
def replicate (n code : ℕ) (h : isHexCode code = true) : Hex n :=
  ⟨⟨List.replicate n code⟩, by simp [Str.isHex, h]⟩

end Hex

def zeroDigest : Digest := Hex.replicate 64 48 isHexCode_zero

def hexCode (d : ℕ) : ℕ := if d % 16 < 10 then 48 + d % 16 else 87 + d % 16

theorem isHexCode_hexCode (d : ℕ) : isHexCode (hexCode d) = true := by
  have hd : d % 16 < 16 := Nat.mod_lt _ (by decide)
  unfold hexCode isHexCode
  split <;> simp <;> omega

/-- `hashlib.sha256(value).hexdigest()` -/
@[irreducible]
def sha256 (value : Bytes) : Digest :=
  ⟨⟨(Sha256.digits value).map hexCode⟩, by
    simp [Str.isHex, Sha256.digits, isHexCode_hexCode]⟩

end SparkCache
