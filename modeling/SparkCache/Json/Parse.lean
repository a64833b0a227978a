import SparkCache.Json.Text

/-!
# Decoding JSON text

The decoder of the `json` module over the text of a document. A document given
as bytes is UTF-8, with an optional byte order mark; the UTF-16 and UTF-32
documents that the library also detects are rejected here. Nesting depth is not
bounded. An integer literal of more than 4300 digits fails in `int`, after the
decoder accepted it.
-/
namespace SparkCache

inductive LoadError where
  | unicode
  | decode
  | digits
  deriving DecidableEq, Repr

namespace Json

def isBlank (c : Char) : Bool := c = ' ' || c = '\t' || c = '\n' || c = '\r'

def skipBlank : List Char → List Char
  | [] => []
  | c :: rest => if isBlank c then skipBlank rest else c :: rest

def hexVal (c : Char) : Option ℕ :=
  if '0' ≤ c ∧ c ≤ '9' then some (c.toNat - 48)
  else if 'a' ≤ c ∧ c ≤ 'f' then some (c.toNat - 87)
  else if 'A' ≤ c ∧ c ≤ 'F' then some (c.toNat - 55)
  else none

def unitVal (a b c d : Char) : Option ℕ := do
  return 4096 * (← hexVal a) + 256 * (← hexVal b) + 16 * (← hexVal c) + (← hexVal d)

/-- The character named by a one-letter escape. -/
def simpleEscape (c : Char) : Option ℕ :=
  if c = '"' then some 34
  else if c = '\\' then some 92
  else if c = '/' then some 47
  else if c = 'b' then some 8
  else if c = 'f' then some 12
  else if c = 'n' then some 10
  else if c = 'r' then some 13
  else if c = 't' then some 9
  else none

/-- The rest of a string literal after its opening quote, escapes decoded one
16-bit unit at a time. -/
def parseUnits : List Char → Option (List ℕ × List Char)
  | [] => none
  | '"' :: rest => some ([], rest)
  | '\\' :: 'u' :: a :: b :: c :: d :: rest =>
      match unitVal a b c d with
      | none => none
      | some unit => (parseUnits rest).map fun p => (unit :: p.1, p.2)
  | '\\' :: e :: rest =>
      match simpleEscape e with
      | none => none
      | some code => (parseUnits rest).map fun p => (code :: p.1, p.2)
  | c :: rest =>
      if c.toNat < 32 then none
      else (parseUnits rest).map fun p => (c.toNat :: p.1, p.2)

/-- A high surrogate followed by a low one is one code point. -/
def joinSurrogates : List ℕ → List ℕ
  | hi :: lo :: rest =>
      if 0xd800 ≤ hi ∧ hi ≤ 0xdbff ∧ 0xdc00 ≤ lo ∧ lo ≤ 0xdfff then
        (0x10000 + (hi - 0xd800) * 1024 + (lo - 0xdc00)) :: joinSurrogates rest
      else hi :: joinSurrogates (lo :: rest)
  | units => units

def parseStr (text : List Char) : Except LoadError (Str × List Char) :=
  match parseUnits text with
  | none => .error .decode
  | some (units, rest) => .ok (⟨joinSurrogates units⟩, rest)

def spanDigits : List Char → List Char × List Char
  | [] => ([], [])
  | c :: rest =>
      if c.isDigit then ((c :: (spanDigits rest).1), (spanDigits rest).2) else ([], c :: rest)

def ofDecimal (digits : List Char) : ℕ :=
  digits.foldl (fun n c => 10 * n + (c.toNat - 48)) 0

/-- `.` and at least one digit. -/
def parseFraction : List Char → List Char × List Char
  | '.' :: d :: rest =>
      if d.isDigit then ('.' :: d :: (spanDigits rest).1, (spanDigits rest).2)
      else ([], '.' :: d :: rest)
  | text => ([], text)

/-- `e`, an optional sign and at least one digit. -/
def parseExponent : List Char → List Char × List Char
  | e :: s :: d :: rest =>
      if (e = 'e' ∨ e = 'E') ∧ (s = '+' ∨ s = '-') ∧ d.isDigit then
        (e :: s :: d :: (spanDigits rest).1, (spanDigits rest).2)
      else if (e = 'e' ∨ e = 'E') ∧ s.isDigit then
        (e :: s :: (spanDigits (d :: rest)).1, (spanDigits (d :: rest)).2)
      else ([], e :: s :: d :: rest)
  | [e, s] => if (e = 'e' ∨ e = 'E') ∧ s.isDigit then ([e, s], []) else ([], [e, s])
  | text => ([], text)

/-- The integer part: a zero or digits without a leading zero. -/
def parseInteger : List Char → List Char × List Char
  | '0' :: rest => (['0'], rest)
  | text => spanDigits text

/-- The number after an optional minus sign. -/
def parseUnsigned (negative : Bool) (text : List Char) : Except LoadError (Json × List Char) :=
  let (digits, rest) := parseInteger text
  let (fraction, rest) := parseFraction rest
  let (exponent, rest) := parseExponent rest
  if digits = [] then .error .decode
  else if fraction = [] ∧ exponent = [] then
    if maxIntDigits < digits.length then .error .digits
    else .ok (.int (if negative then -(ofDecimal digits : ℤ) else ofDecimal digits), rest)
  else .ok (.float ((if negative then ['-'] else []) ++ digits ++ fraction ++ exponent), rest)

def keyword? (word : String) (text : List Char) : Option (List Char) :=
  if word.toList <+: text then some (text.drop word.length) else none

/-- Literals and numbers. -/
def parseAtom (text : List Char) : Except LoadError (Json × List Char) :=
  if let some rest := keyword? "null" text then .ok (.null, rest)
  else if let some rest := keyword? "true" text then .ok (.bool true, rest)
  else if let some rest := keyword? "false" text then .ok (.bool false, rest)
  else if let some rest := keyword? "NaN" text then .ok (.float "NaN".toList, rest)
  else if let some rest := keyword? "Infinity" text then .ok (.float "Infinity".toList, rest)
  else if let some rest := keyword? "-Infinity" text then .ok (.float "-Infinity".toList, rest)
  else match text with
    | '-' :: rest => parseUnsigned true rest
    | text => parseUnsigned false text

mutual
/-- One value at the head of the text. The fuel bounds the nested calls; the text's
length is always enough. -/
def parseValue : ℕ → List Char → Except LoadError (Json × List Char)
  | 0, _ => .error .decode
  | _ + 1, '"' :: rest => do
      let (s, rest) ← parseStr rest
      return (.str s, rest)
  | fuel + 1, '[' :: rest =>
      match skipBlank rest with
      | ']' :: rest => .ok (.arr [], rest)
      | rest => do
          let (x, rest) ← parseValue fuel rest
          let (xs, rest) ← parseItems fuel (skipBlank rest)
          return (.arr (x :: xs), rest)
  | fuel + 1, '{' :: rest =>
      match skipBlank rest with
      | '}' :: rest => .ok (.obj [], rest)
      | rest => do
          let (f, rest) ← parseField fuel rest
          let (fs, rest) ← parseFields fuel (skipBlank rest)
          return (.object (f :: fs), rest)
  | _ + 1, text => parseAtom text

/-- What follows an array item: the end or a comma and more items. -/
def parseItems : ℕ → List Char → Except LoadError (List Json × List Char)
  | 0, _ => .error .decode
  | _ + 1, ']' :: rest => .ok ([], rest)
  | fuel + 1, ',' :: rest => do
      let (x, rest) ← parseValue fuel (skipBlank rest)
      let (xs, rest) ← parseItems fuel (skipBlank rest)
      return (x :: xs, rest)
  | _ + 1, _ => .error .decode

def parseField : ℕ → List Char → Except LoadError ((Str × Json) × List Char)
  | 0, _ => .error .decode
  | fuel + 1, '"' :: rest => do
      let (key, rest) ← parseStr rest
      match skipBlank rest with
      | ':' :: rest => do
          let (x, rest) ← parseValue fuel (skipBlank rest)
          return ((key, x), rest)
      | _ => .error .decode
  | _ + 1, _ => .error .decode

def parseFields : ℕ → List Char → Except LoadError (List (Str × Json) × List Char)
  | 0, _ => .error .decode
  | _ + 1, '}' :: rest => .ok ([], rest)
  | fuel + 1, ',' :: rest => do
      let (f, rest) ← parseField fuel (skipBlank rest)
      let (fs, rest) ← parseFields fuel (skipBlank rest)
      return (f :: fs, rest)
  | _ + 1, _ => .error .decode
end

/-- `json.loads` of decoded text: one value between blanks and nothing else. -/
def loadsText (text : List Char) : Except LoadError Json := do
  let (value, rest) ← parseValue (text.length + 1) (skipBlank text)
  match skipBlank rest with
  | [] => return value
  | _ => .error .decode

/-- The continuation byte's six bits. -/
def continuation (b : UInt8) : Option ℕ :=
  if 0x80 ≤ b.toNat ∧ b.toNat < 0xc0 then some (b.toNat - 0x80) else none

def scalarChar (code least : ℕ) : Option Char :=
  if Str.isScalar code ∧ least ≤ code then some (Char.ofNat code) else none

/-- Strict UTF-8: overlong forms and surrogates are errors. -/
def decodeUtf8 : Bytes → Option (List Char)
  | [] => some []
  | a :: rest =>
      if a.toNat < 0x80 then (decodeUtf8 rest).map (Char.ofNat a.toNat :: ·)
      else match rest with
      | b :: rest =>
          if 0xc0 ≤ a.toNat ∧ a.toNat < 0xe0 then do
            let x ← continuation b
            let c ← scalarChar ((a.toNat - 0xc0) * 64 + x) 0x80
            (decodeUtf8 rest).map (c :: ·)
          else match rest with
          | d :: rest =>
              if 0xe0 ≤ a.toNat ∧ a.toNat < 0xf0 then do
                let x ← continuation b
                let y ← continuation d
                let c ← scalarChar ((a.toNat - 0xe0) * 4096 + x * 64 + y) 0x800
                (decodeUtf8 rest).map (c :: ·)
              else match rest with
              | e :: rest =>
                  if 0xf0 ≤ a.toNat ∧ a.toNat < 0xf8 then do
                    let x ← continuation b
                    let y ← continuation d
                    let z ← continuation e
                    let c ← scalarChar
                      ((a.toNat - 0xf0) * 262144 + x * 4096 + y * 64 + z) 0x10000
                    (decodeUtf8 rest).map (c :: ·)
                  else none
              | [] => none
          | [] => none
      | [] => none

end Json

/-- The document after an optional byte order mark. -/
def stripMark : Bytes → Bytes
  | 0xef :: 0xbb :: 0xbf :: rest => rest
  | encoded => encoded

/-- `json.loads` of a byte string. -/
def loads (encoded : Bytes) : Except LoadError Json :=
  match Json.decodeUtf8 (stripMark encoded) with
  | none => .error .unicode
  | some text => Json.loadsText text

example : loads (Json.encodeAscii " [1 , -2.50e1,\"\\ud83d\\ude00\" ] ".toList) =
    .ok (.arr [.int 1, .float "-2.50e1".toList, .str ⟨[0x1f600]⟩]) := by decide +kernel

end SparkCache
