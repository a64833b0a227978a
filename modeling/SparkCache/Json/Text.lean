import SparkCache.Json.Value

/-!
# Canonical JSON text

`json.dumps` with sorted keys, no blanks and `ensure_ascii`. The text is plain
ASCII, so encoding it to bytes maps each character to its code.
-/
namespace SparkCache

abbrev Bytes := List UInt8

namespace Json

def digitChar (d : ℕ) : Char := Char.ofNat (48 + d)

/-- Decimal digits of a natural number, most significant first. -/
def decimal (n : ℕ) : List Char :=
  if n < 10 then [digitChar n] else decimal (n / 10) ++ [digitChar (n % 10)]
termination_by n
decreasing_by omega

def dumpsInt (n : ℤ) : List Char :=
  if n < 0 then '-' :: decimal n.natAbs else decimal n.natAbs

def hexChar (d : ℕ) : Char := if d < 10 then Char.ofNat (48 + d) else Char.ofNat (87 + d)

/-- `\uXXXX` for one 16-bit unit. -/
def escapeUnit (unit : ℕ) : List Char :=
  ['\\', 'u', hexChar (unit / 4096 % 16), hexChar (unit / 256 % 16), hexChar (unit / 16 % 16),
    hexChar (unit % 16)]

/-- One character of a string literal under `ensure_ascii`. -/
def escapeCode (code : ℕ) : List Char :=
  if code = 34 then ['\\', '"']
  else if code = 92 then ['\\', '\\']
  else if code = 10 then ['\\', 'n']
  else if code = 13 then ['\\', 'r']
  else if code = 9 then ['\\', 't']
  else if code = 12 then ['\\', 'f']
  else if code = 8 then ['\\', 'b']
  else if 32 ≤ code ∧ code ≤ 126 then [Char.ofNat code]
  else if code < 0x10000 then escapeUnit code
  else escapeUnit (0xd800 + (code - 0x10000) / 1024) ++
    escapeUnit (0xdc00 + (code - 0x10000) % 1024)

def dumpsStr (s : Str) : List Char :=
  '"' :: (s.codes.flatMap escapeCode ++ ['"'])

mutual
def dumps : Json → List Char
  | .null => "null".toList
  | .bool true => "true".toList
  | .bool false => "false".toList
  | .int n => dumpsInt n
  | .float literal => literal
  | .str s => dumpsStr s
  | .arr [] => ['[', ']']
  | .arr (x :: xs) => '[' :: (dumps x ++ dumpsItems xs)
  | .obj [] => ['{', '}']
  | .obj ((k, x) :: xs) => '{' :: (dumpsStr k ++ ':' :: (dumps x ++ dumpsFields xs))

def dumpsItems : List Json → List Char
  | [] => [']']
  | x :: xs => ',' :: (dumps x ++ dumpsItems xs)

def dumpsFields : List (Str × Json) → List Char
  | [] => ['}']
  | (k, x) :: xs => ',' :: (dumpsStr k ++ ':' :: (dumps x ++ dumpsFields xs))
end

/-- `.encode("ascii")` of text that `ensure_ascii` made plain. -/
def encodeAscii (text : List Char) : Bytes := text.map fun c => UInt8.ofNat c.toNat

end Json

/-- The bytes that `_canonical_json` makes of a printable value. -/
def canonicalJson (value : Json) : Bytes := Json.encodeAscii value.dumps

/-- `_canonical_json`; none stands for the `ValueError` of an integer that is too long. -/
def canonicalJson? (value : Json) : Option Bytes :=
  if value.printable then some (canonicalJson value) else none

example : Json.dumps (.object [("b", .arr [.int 10, .bool true]), ("a", .str "x")]) =
    "\x7b\"a\":\"x\",\"b\":[10,true]\x7d".toList := by decide +kernel

end SparkCache
