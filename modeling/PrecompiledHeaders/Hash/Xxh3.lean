import PrecompiledHeaders.Text.Utf8

/-!
# XXH3

The 128-bit hash XXH3 with seed zero and the standard secret. Inputs are hashed by length:

* up to 16 bytes, from a few overlapping words (`hashEmpty`, `hashUpTo3`, `hashUpTo8`,
  `hashUpTo16`);
* up to 128 and up to 240 bytes, by mixing pairs of 16-byte pieces into two lanes (`hashUpTo128`,
  `hashUpTo240`);
* longer inputs, by eight accumulators that take in stripes of 64 bytes and are scrambled after
  every sixteenth (`hashLong`).
-/

namespace PrecompiledHeaders.Xxh3

/-- The two halves of a 128-bit value. -/
structure Lanes where
  /-- The low half. -/
  low : UInt64
  /-- The high half. -/
  high : UInt64

/-! ### Constants -/

def prime32_1 : UInt64 := 0x9E3779B1
def prime32_2 : UInt64 := 0x85EBCA77
def prime32_3 : UInt64 := 0xC2B2AE3D
def prime64_1 : UInt64 := 0x9E3779B185EBCA87
def prime64_2 : UInt64 := 0xC2B2AE3D27D4EB4F
def prime64_3 : UInt64 := 0x165667B19E3779F9
def prime64_4 : UInt64 := 0x85EBCA77C2B2AE63
def prime64_5 : UInt64 := 0x27D4EB2F165667C5
def primeMix1 : UInt64 := 0x165667919E3779F9
def primeMix2 : UInt64 := 0x9FB21C651E98DF25

/-- The standard secret: 192 bytes that the input is combined with. -/
def secret : Array UInt8 := #[
  0xb8, 0xfe, 0x6c, 0x39, 0x23, 0xa4, 0x4b, 0xbe, 0x7c, 0x01, 0x81, 0x2c, 0xf7, 0x21, 0xad, 0x1c,
  0xde, 0xd4, 0x6d, 0xe9, 0x83, 0x90, 0x97, 0xdb, 0x72, 0x40, 0xa4, 0xa4, 0xb7, 0xb3, 0x67, 0x1f,
  0xcb, 0x79, 0xe6, 0x4e, 0xcc, 0xc0, 0xe5, 0x78, 0x82, 0x5a, 0xd0, 0x7d, 0xcc, 0xff, 0x72, 0x21,
  0xb8, 0x08, 0x46, 0x74, 0xf7, 0x43, 0x24, 0x8e, 0xe0, 0x35, 0x90, 0xe6, 0x81, 0x3a, 0x26, 0x4c,
  0x3c, 0x28, 0x52, 0xbb, 0x91, 0xc3, 0x00, 0xcb, 0x88, 0xd0, 0x65, 0x8b, 0x1b, 0x53, 0x2e, 0xa3,
  0x71, 0x64, 0x48, 0x97, 0xa2, 0x0d, 0xf9, 0x4e, 0x38, 0x19, 0xef, 0x46, 0xa9, 0xde, 0xac, 0xd8,
  0xa8, 0xfa, 0x76, 0x3f, 0xe3, 0x9c, 0x34, 0x3f, 0xf9, 0xdc, 0xbb, 0xc7, 0xc7, 0x0b, 0x4f, 0x1d,
  0x8a, 0x51, 0xe0, 0x4b, 0xcd, 0xb4, 0x59, 0x31, 0xc8, 0x9f, 0x7e, 0xc9, 0xd9, 0x78, 0x73, 0x64,
  0xea, 0xc5, 0xac, 0x83, 0x34, 0xd3, 0xeb, 0xc3, 0xc5, 0x81, 0xa0, 0xff, 0xfa, 0x13, 0x63, 0xeb,
  0x17, 0x0d, 0xdd, 0x51, 0xb7, 0xf0, 0xda, 0x49, 0xd3, 0x16, 0x55, 0x26, 0x29, 0xd4, 0x68, 0x9e,
  0x2b, 0x16, 0xbe, 0x58, 0x7d, 0x47, 0xa1, 0xfc, 0x8f, 0xf8, 0xb8, 0xd1, 0x7a, 0xd0, 0x31, 0xce,
  0x45, 0xcb, 0x3a, 0x8f, 0x95, 0x16, 0x04, 0x28, 0xaf, 0xd7, 0xfb, 0xca, 0xbb, 0x4b, 0x40, 0x7e]

/-! ### Words -/

/-- The byte at a place; zero behind the end. -/
def byteAt (data : Array UInt8) (i : Nat) : UInt64 := (data.getD i 0).toUInt64

/-- The little-endian 32-bit word at a place. -/
def word32 (data : Array UInt8) (i : Nat) : UInt64 :=
  byteAt data i ||| byteAt data (i + 1) <<< 8 ||| byteAt data (i + 2) <<< 16 |||
    byteAt data (i + 3) <<< 24

/-- The little-endian 64-bit word at a place. -/
def word64 (data : Array UInt8) (i : Nat) : UInt64 :=
  word32 data i ||| word32 data (i + 4) <<< 32

/-- The low 32 bits of a word. -/
def lowHalf (x : UInt64) : UInt64 := x &&& 0xFFFFFFFF

/-- The byte of a word that starts at the given bit. -/
def byteFrom (x bit : UInt64) : UInt64 := (x >>> bit) &&& 0xFF

/-- The low 32 bits turned around bytewise. -/
def swap32 (x : UInt64) : UInt64 :=
  byteFrom x 0 <<< 24 ||| byteFrom x 8 <<< 16 ||| byteFrom x 16 <<< 8 ||| byteFrom x 24

/-- The word turned around bytewise. -/
def swap64 (x : UInt64) : UInt64 := swap32 x <<< 32 ||| swap32 (x >>> 32)

/-- The low 32 bits rotated to the left. -/
def rotate32 (x count : UInt64) : UInt64 :=
  lowHalf (x <<< count ||| x >>> (32 - count))

/-- A word combined with its own upper bits. -/
def shiftXor (x count : UInt64) : UInt64 := x ^^^ x >>> count

/-- The full product of two words. -/
def multiply (a b : UInt64) : Lanes :=
  let product := a.toNat * b.toNat
  ⟨UInt64.ofNat product, UInt64.ofNat (product >>> 64)⟩

/-- The two halves of the full product, combined. -/
def multiplyFold (a b : UInt64) : UInt64 :=
  let product := multiply a b
  product.low ^^^ product.high

/-- The final scrambling of a lane. -/
def avalanche (x : UInt64) : UInt64 := shiftXor (shiftXor x 37 * primeMix1) 32

/-- The final scrambling for the shortest inputs. -/
def avalancheShort (x : UInt64) : UInt64 :=
  shiftXor (shiftXor (shiftXor x 33 * prime64_2) 29 * prime64_3) 32

/-! ### Short inputs -/

/-- The hash of no bytes. -/
def hashEmpty : Lanes :=
  ⟨avalancheShort (word64 secret 64 ^^^ word64 secret 72),
    avalancheShort (word64 secret 80 ^^^ word64 secret 88)⟩

/-- The hash of one to three bytes. -/
def hashUpTo3 (data : Array UInt8) : Lanes :=
  let length := data.size
  let low := byteAt data 0 <<< 16 ||| byteAt data (length / 2) <<< 24 |||
    byteAt data (length - 1) ||| length.toUInt64 <<< 8
  let high := rotate32 (swap32 low) 13
  ⟨avalancheShort (low ^^^ word32 secret 0 ^^^ word32 secret 4),
    avalancheShort (high ^^^ word32 secret 8 ^^^ word32 secret 12)⟩

/-- The hash of four to eight bytes. -/
def hashUpTo8 (data : Array UInt8) : Lanes :=
  let length := data.size
  let input := word32 data 0 + word32 data (length - 4) <<< 32
  let keyed := input ^^^ word64 secret 16 ^^^ word64 secret 24
  let product := multiply keyed (prime64_1 + length.toUInt64 <<< 2)
  let high := product.high + product.low <<< 1
  let low := product.low ^^^ high >>> 3
  ⟨shiftXor (shiftXor low 35 * primeMix2) 28, avalanche high⟩

/-- The hash of nine to sixteen bytes. -/
def hashUpTo16 (data : Array UInt8) : Lanes :=
  let length := data.size
  let inputLow := word64 data 0
  let inputHigh := word64 data (length - 8)
  let product :=
    multiply (inputLow ^^^ inputHigh ^^^ word64 secret 32 ^^^ word64 secret 40) prime64_1
  let low := product.low + (length - 1).toUInt64 <<< 54
  let inputHigh := inputHigh ^^^ word64 secret 48 ^^^ word64 secret 56
  let high := product.high + inputHigh + lowHalf inputHigh * (prime32_2 - 1)
  let product := multiply (low ^^^ swap64 high) prime64_2
  ⟨avalanche product.low, avalanche (product.high + high * prime64_2)⟩

/-! ### Inputs of middle length -/

/-- Mixes 16 bytes of input with 16 bytes of the secret. -/
def mix16 (data : Array UInt8) (i s : Nat) : UInt64 :=
  multiplyFold (word64 data i ^^^ word64 secret s) (word64 data (i + 8) ^^^ word64 secret (s + 8))

/-- Takes two pieces of 16 bytes, at `i` and `j`, into the two lanes. -/
def mix32 (data : Array UInt8) (i j s : Nat) (acc : Lanes) : Lanes :=
  ⟨(acc.low + mix16 data i s) ^^^ (word64 data j + word64 data (j + 8)),
    (acc.high + mix16 data j (s + 16)) ^^^ (word64 data i + word64 data (i + 8))⟩

/-- The two lanes once nothing has been mixed in. -/
def initialLanes (length : Nat) : Lanes := ⟨length.toUInt64 * prime64_1, 0⟩

/-- The hash of the lanes once everything has been mixed in. -/
def finishLanes (length : Nat) (acc : Lanes) : Lanes :=
  ⟨avalanche (acc.low + acc.high),
    0 - avalanche (acc.low * prime64_1 + acc.high * prime64_4 + length.toUInt64 * prime64_2)⟩

/-- The hash of 17 to 128 bytes: pieces are mixed in from both ends, the inner ones first. -/
def hashUpTo128 (data : Array UInt8) : Lanes :=
  let length := data.size
  let rounds := (length - 1) / 32 + 1
  let acc := (List.range rounds).reverse.foldl
    (fun acc k => mix32 data (16 * k) (length - 16 * (k + 1)) (32 * k) acc) (initialLanes length)
  finishLanes length acc

/-- The hash of 129 to 240 bytes: pieces are mixed in from the start, and the last one again. -/
def hashUpTo240 (data : Array UInt8) : Lanes :=
  let length := data.size
  let acc := (List.range 4).foldl
    (fun acc k => mix32 data (32 * k) (32 * k + 16) (32 * k) acc) (initialLanes length)
  let acc : Lanes := ⟨avalanche acc.low, avalanche acc.high⟩
  let acc := (List.range (length / 32 - 4)).foldl
    (fun acc k => mix32 data (32 * k + 128) (32 * k + 144) (32 * k + 3) acc) acc
  finishLanes length (mix32 data (length - 16) (length - 32) 103 acc)

/-! ### Long inputs -/

/-- The accumulators before any stripe. -/
def initialAccumulators : List UInt64 :=
  [prime32_3, prime64_1, prime64_2, prime64_3, prime64_4, prime32_2, prime64_5, prime32_1]

/-- Takes the stripe at `i` into the accumulators: each adds the product of the halves of its
    keyed word, and the plain word of its neighbour. -/
def accumulate (data : Array UInt8) (i s : Nat) (acc : List UInt64) : List UInt64 :=
  acc.mapIdx fun k a =>
    let key := word64 data (i + 8 * k) ^^^ word64 secret (s + 8 * k)
    let neighbour := if k % 2 = 0 then k + 1 else k - 1
    a + word64 data (i + 8 * neighbour) + lowHalf key * (key >>> 32)

/-- Scrambles the accumulators at the end of a block. -/
def scramble (acc : List UInt64) : List UInt64 :=
  acc.mapIdx fun k a => (shiftXor a 47 ^^^ word64 secret (128 + 8 * k)) * prime32_1

/-- Takes `count` stripes from place `i` on into the accumulators. -/
def accumulateStripes (data : Array UInt8) (i count : Nat) (acc : List UInt64) : List UInt64 :=
  (List.range count).foldl (fun acc k => accumulate data (i + 64 * k) (8 * k) acc) acc

/-- One word of the hash, from all accumulators. -/
def merge (acc : List UInt64) (s : Nat) (start : UInt64) : UInt64 :=
  let rec go : List UInt64 → Nat → UInt64 → UInt64
    | a :: b :: rest, s, total =>
      go rest (s + 16) (total + multiplyFold (a ^^^ word64 secret s) (b ^^^ word64 secret (s + 8)))
    | _, _, total => total
  avalanche (go acc s start)

/-- The hash of more than 240 bytes. -/
def hashLong (data : Array UInt8) : Lanes :=
  let length := data.size
  let blocks := (length - 1) / 1024
  let acc := (List.range blocks).foldl
    (fun acc n => scramble (accumulateStripes data (1024 * n) 16 acc)) initialAccumulators
  let acc := accumulateStripes data (1024 * blocks) ((length - 1 - 1024 * blocks) / 64) acc
  let acc := accumulate data (length - 64) 121 acc
  ⟨merge acc 11 (length.toUInt64 * prime64_1),
    merge acc 117 (0xFFFFFFFFFFFFFFFF ^^^ length.toUInt64 * prime64_2)⟩

/-- The hash of some bytes. -/
def hash (bytes : Bytes) : Lanes :=
  let data := bytes.toArray
  let length := data.size
  if length = 0 then hashEmpty
  else if length ≤ 3 then hashUpTo3 data
  else if length ≤ 8 then hashUpTo8 data
  else if length ≤ 16 then hashUpTo16 data
  else if length ≤ 128 then hashUpTo128 data
  else if length ≤ 240 then hashUpTo240 data
  else hashLong data

end PrecompiledHeaders.Xxh3
