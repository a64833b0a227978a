import Mathlib.Data.Nat.Bitwise

/-!
# SHA-256

The hash function on byte strings, over natural numbers below `2 ^ 32`.
-/
namespace Sha256

def wordSize : ℕ := 2 ^ 32

def add (a b : ℕ) : ℕ := (a + b) % wordSize

def rotateRight (x n : ℕ) : ℕ := (x >>> n ||| x <<< (32 - n)) % wordSize

def complement (x : ℕ) : ℕ := wordSize - 1 - x

def roundConstants : List ℕ :=
  [0x428a2f98, 0x71374491, 0xb5c0fbcf, 0xe9b5dba5, 0x3956c25b, 0x59f111f1, 0x923f82a4, 0xab1c5ed5,
   0xd807aa98, 0x12835b01, 0x243185be, 0x550c7dc3, 0x72be5d74, 0x80deb1fe, 0x9bdc06a7, 0xc19bf174,
   0xe49b69c1, 0xefbe4786, 0x0fc19dc6, 0x240ca1cc, 0x2de92c6f, 0x4a7484aa, 0x5cb0a9dc, 0x76f988da,
   0x983e5152, 0xa831c66d, 0xb00327c8, 0xbf597fc7, 0xc6e00bf3, 0xd5a79147, 0x06ca6351, 0x14292967,
   0x27b70a85, 0x2e1b2138, 0x4d2c6dfc, 0x53380d13, 0x650a7354, 0x766a0abb, 0x81c2c92e, 0x92722c85,
   0xa2bfe8a1, 0xa81a664b, 0xc24b8b70, 0xc76c51a3, 0xd192e819, 0xd6990624, 0xf40e3585, 0x106aa070,
   0x19a4c116, 0x1e376c08, 0x2748774c, 0x34b0bcb5, 0x391c0cb3, 0x4ed8aa4a, 0x5b9cca4f, 0x682e6ff3,
   0x748f82ee, 0x78a5636f, 0x84c87814, 0x8cc70208, 0x90befffa, 0xa4506ceb, 0xbef9a3f7, 0xc67178f2]

/-- The eight working words. -/
structure Words where
  a : ℕ
  b : ℕ
  c : ℕ
  d : ℕ
  e : ℕ
  f : ℕ
  g : ℕ
  h : ℕ

def initial : Words :=
  ⟨0x6a09e667, 0xbb67ae85, 0x3c6ef372, 0xa54ff53a, 0x510e527f, 0x9b05688c, 0x1f83d9ab, 0x5be0cd19⟩

/-- The message schedule, newest word first. -/
def extend : ℕ → List ℕ → List ℕ
  | 0, words => words
  | n + 1, words =>
      let w15 := words.getD 14 0
      let w2 := words.getD 1 0
      let s0 := rotateRight w15 7 ^^^ rotateRight w15 18 ^^^ (w15 >>> 3)
      let s1 := rotateRight w2 17 ^^^ rotateRight w2 19 ^^^ (w2 >>> 10)
      extend n (add (add (words.getD 15 0) s0) (add (words.getD 6 0) s1) :: words)

def round (s : Words) (k w : ℕ) : Words :=
  let s1 := rotateRight s.e 6 ^^^ rotateRight s.e 11 ^^^ rotateRight s.e 25
  let choice := (s.e &&& s.f) ^^^ (complement s.e &&& s.g)
  let temp1 := add (add s.h s1) (add choice (add k w))
  let s0 := rotateRight s.a 2 ^^^ rotateRight s.a 13 ^^^ rotateRight s.a 22
  let majority := (s.a &&& s.b) ^^^ (s.a &&& s.c) ^^^ (s.b &&& s.c)
  ⟨add temp1 (add s0 majority), s.a, s.b, s.c, add s.d temp1, s.e, s.f, s.g⟩

def rounds : List ℕ → List ℕ → Words → Words
  | k :: ks, w :: ws, s => rounds ks ws (round s k w)
  | _, _, s => s

/-- One block of sixteen words. -/
def compress (s : Words) (block : List ℕ) : Words :=
  let t := rounds roundConstants (extend 48 block.reverse).reverse s
  ⟨add s.a t.a, add s.b t.b, add s.c t.c, add s.d t.d, add s.e t.e, add s.f t.f, add s.g t.g,
    add s.h t.h⟩

/-- The message, a one bit, zeros and the length in bits, as bytes. -/
def pad (message : List UInt8) : List ℕ :=
  let size := message.length
  message.map UInt8.toNat ++ 0x80 :: List.replicate ((119 - size % 64) % 64) 0 ++
    (List.range 8).map fun i => (8 * size) >>> (8 * (7 - i)) % 256

def toWords : List ℕ → List ℕ
  | a :: b :: c :: d :: rest => (a * 2 ^ 24 + b * 2 ^ 16 + c * 2 ^ 8 + d) :: toWords rest
  | _ => []

/-- Compress block after block. -/
def blocks : ℕ → List ℕ → Words → Words
  | 0, _, s => s
  | n + 1, words, s => blocks n (words.drop 16) (compress s (words.take 16))

def hash (message : List UInt8) : Words :=
  let words := toWords (pad message)
  blocks (words.length / 16) words initial

/-- The digest as 64 hexadecimal digits. -/
def digits (message : List UInt8) : List ℕ :=
  let s := hash message
  [s.a, s.b, s.c, s.d, s.e, s.f, s.g, s.h].flatMap fun w =>
    (List.range 8).map fun i => w >>> (4 * (7 - i)) % 16

example : digits "abc".toUTF8.toList = [
    0xb, 0xa, 0x7, 0x8, 0x1, 0x6, 0xb, 0xf, 0x8, 0xf, 0x0, 0x1, 0xc, 0xf, 0xe, 0xa,
    0x4, 0x1, 0x4, 0x1, 0x4, 0x0, 0xd, 0xe, 0x5, 0xd, 0xa, 0xe, 0x2, 0x2, 0x2, 0x3,
    0xb, 0x0, 0x0, 0x3, 0x6, 0x1, 0xa, 0x3, 0x9, 0x6, 0x1, 0x7, 0x7, 0xa, 0x9, 0xc,
    0xb, 0x4, 0x1, 0x0, 0xf, 0xf, 0x6, 0x1, 0xf, 0x2, 0x0, 0x0, 0x1, 0x5, 0xa, 0xd] := by
  decide +kernel

end Sha256
