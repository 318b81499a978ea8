/-! SHA-256. A text is padded to whole blocks of sixty-four bytes, and each block changes eight
words in sixty-four rounds; the digest is the text of the words in hexadecimal. -/

namespace Metagen.Sha256

def roundWords : List UInt32 := [
  0x428a2f98, 0x71374491, 0xb5c0fbcf, 0xe9b5dba5, 0x3956c25b, 0x59f111f1, 0x923f82a4, 0xab1c5ed5,
  0xd807aa98, 0x12835b01, 0x243185be, 0x550c7dc3, 0x72be5d74, 0x80deb1fe, 0x9bdc06a7, 0xc19bf174,
  0xe49b69c1, 0xefbe4786, 0x0fc19dc6, 0x240ca1cc, 0x2de92c6f, 0x4a7484aa, 0x5cb0a9dc, 0x76f988da,
  0x983e5152, 0xa831c66d, 0xb00327c8, 0xbf597fc7, 0xc6e00bf3, 0xd5a79147, 0x06ca6351, 0x14292967,
  0x27b70a85, 0x2e1b2138, 0x4d2c6dfc, 0x53380d13, 0x650a7354, 0x766a0abb, 0x81c2c92e, 0x92722c85,
  0xa2bfe8a1, 0xa81a664b, 0xc24b8b70, 0xc76c51a3, 0xd192e819, 0xd6990624, 0xf40e3585, 0x106aa070,
  0x19a4c116, 0x1e376c08, 0x2748774c, 0x34b0bcb5, 0x391c0cb3, 0x4ed8aa4a, 0x5b9cca4f, 0x682e6ff3,
  0x748f82ee, 0x78a5636f, 0x84c87814, 0x8cc70208, 0x90befffa, 0xa4506ceb, 0xbef9a3f7, 0xc67178f2]

/-- The eight words that blocks change. -/
structure Words where
  a : UInt32
  b : UInt32
  c : UInt32
  d : UInt32
  e : UInt32
  f : UInt32
  g : UInt32
  h : UInt32
  deriving DecidableEq, Repr

def initialWords : Words :=
  ⟨0x6a09e667, 0xbb67ae85, 0x3c6ef372, 0xa54ff53a, 0x510e527f, 0x9b05688c, 0x1f83d9ab, 0x5be0cd19⟩

/-- Move the bits of a word to the right, and those that fall out to the left end. -/
def rotate (x n : UInt32) : UInt32 := (x >>> n) ||| (x <<< (32 - n))

def nextScheduled (w0 w1 w9 w14 : UInt32) : UInt32 :=
  let s0 := rotate w1 7 ^^^ rotate w1 18 ^^^ (w1 >>> 3)
  let s1 := rotate w14 17 ^^^ rotate w14 19 ^^^ (w14 >>> 10)
  w0 + s0 + w9 + s1

/-- The schedule of a block: its sixteen words and forty-eight more. -/
def scheduled (block : Array UInt32) : Array UInt32 :=
  (List.range 48).foldl (fun w i =>
    w.push (nextScheduled (w.getD i 0) (w.getD (i + 1) 0) (w.getD (i + 9) 0) (w.getD (i + 14) 0)))
    block

def round (x : Words) (k w : UInt32) : Words :=
  let s1 := rotate x.e 6 ^^^ rotate x.e 11 ^^^ rotate x.e 25
  let choice := (x.e &&& x.f) ^^^ (~~~x.e &&& x.g)
  let t1 := x.h + s1 + choice + k + w
  let s0 := rotate x.a 2 ^^^ rotate x.a 13 ^^^ rotate x.a 22
  let majority := (x.a &&& x.b) ^^^ (x.a &&& x.c) ^^^ (x.b &&& x.c)
  ⟨t1 + (s0 + majority), x.a, x.b, x.c, x.d + t1, x.e, x.f, x.g⟩

def Words.add (x y : Words) : Words :=
  ⟨x.a + y.a, x.b + y.b, x.c + y.c, x.d + y.d, x.e + y.e, x.f + y.f, x.g + y.g, x.h + y.h⟩

def compress (x : Words) (block : Array UInt32) : Words :=
  x.add <| (roundWords.zip (scheduled block).toList).foldl (fun y (k, w) => round y k w) x

/-- A number as bytes, the highest first. -/
def bytesOf (count n : Nat) : List UInt8 :=
  ((List.range count).map fun i => UInt8.ofNat (n / Nat.pow 256 i)).reverse

/-- A byte with one bit, zeros, and the length in bits, so that the whole is made of full blocks. -/
def padding (length : Nat) : List UInt8 :=
  0x80 :: List.replicate ((119 - length % 64) % 64) 0 ++ bytesOf 8 (8 * length)

/-- Words of four bytes each. -/
def wordsOf : List UInt8 → List UInt32
  | a :: b :: c :: d :: rest =>
    (a.toUInt32 <<< 24 ||| b.toUInt32 <<< 16 ||| c.toUInt32 <<< 8 ||| d.toUInt32) :: wordsOf rest
  | _ => []

/-- The words after all blocks; `count` bounds the number of blocks. -/
def compressAll (x : Words) : Nat → List UInt32 → Words
  | 0, _ => x
  | count + 1, words =>
    if words.isEmpty then x
    else compressAll (compress x (words.take 16).toArray) count (words.drop 16)

def hexWord (w : UInt32) : String :=
  .ofList ((List.range 8).reverse.map fun i => Nat.digitChar (w.toNat / Nat.pow 16 i % 16))

def digest (bytes : List UInt8) : String :=
  let words := wordsOf (bytes ++ padding bytes.length)
  let x := compressAll initialWords words.length words
  String.join ([x.a, x.b, x.c, x.d, x.e, x.f, x.g, x.h].map hexWord)

def ofText (text : String) : String := digest text.toUTF8.data.toList

end Metagen.Sha256
