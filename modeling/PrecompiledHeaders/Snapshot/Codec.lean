import PrecompiledHeaders.Text.Utf8

/-!
# Binary values

The building blocks of binary files: numbers of fixed width with the least byte first, numbers
in as few bytes as their size needs, and texts and lists behind their length.

A number below 251 is one byte. Other numbers start with a marker that tells the width in which
they follow (`Width`). How wide a number may be depends on what is read: a reader names the
greatest width.
-/

namespace PrecompiledHeaders.Codec

/-- Takes a value off the front of some bytes, or fails. -/
abbrev Decoder (α : Type) := StateT Bytes Option α

/-! ### Bytes -/

/-- The bytes of a number, least byte first. -/
def littleEndian : (count : Nat) → Nat → Bytes
  | 0, _ => []
  | count + 1, n => UInt8.ofNat n :: littleEndian count (n / 256)

/-- The number with the given bytes. -/
def ofLittleEndian : Bytes → Nat
  | [] => 0
  | b :: rest => b.toNat + 256 * ofLittleEndian rest

/-- Takes a byte. -/
def byte : Decoder UInt8
  | [] => none
  | b :: rest => some (b, rest)

/-- Takes some bytes. -/
def bytes (count : Nat) : Decoder Bytes := fun input =>
  if count ≤ input.length then some (input.take count, input.drop count) else none

/-- Takes a number in the given count of bytes. -/
def fixed (count : Nat) : Decoder Nat := do
  return ofLittleEndian (← bytes count)

/-! ### Numbers of variable length -/

/-- The widths of numbers behind a marker. -/
inductive Width
  /-- Two bytes. -/
  | two
  /-- Four bytes. -/
  | four
  /-- Eight bytes. -/
  | eight
  /-- Sixteen bytes. -/
  | sixteen
deriving DecidableEq, Repr

namespace Width

/-- All widths, the smallest first. -/
def all : List Width := [.two, .four, .eight, .sixteen]

/-- The number of bytes. -/
def count : Width → Nat
  | .two => 2
  | .four => 4
  | .eight => 8
  | .sixteen => 16

/-- The byte in front of a number of this width. -/
def marker : Width → UInt8
  | .two => 0xFB
  | .four => 0xFC
  | .eight => 0xFD
  | .sixteen => 0xFE

end Width

/-- The numbers below this one are written as one byte. -/
def markers : Nat := 251

/-- The bytes of a number below `2 ^ 128`. -/
def number (n : Nat) : Bytes :=
  if n < markers then [UInt8.ofNat n]
  else if n < 0x10000 then Width.two.marker :: littleEndian 2 n
  else if n < 0x100000000 then Width.four.marker :: littleEndian 4 n
  else if n < 0x10000000000000000 then Width.eight.marker :: littleEndian 8 n
  else Width.sixteen.marker :: littleEndian 16 n

/-- Takes a number of at most the given width. -/
def numberUpTo (widest : Width) : Decoder Nat := do
  let b ← byte
  if b.toNat < markers then return b.toNat
  match Width.all.find? fun width => width.marker = b ∧ width.count ≤ widest.count with
  | some width => fixed width.count
  | none => failure

/-! ### Texts and lists -/

/-- The bytes of a length; none if it takes more than eight bytes. -/
def length? (n : Nat) : Option Bytes := if n < 0x10000000000000000 then some (number n) else none

/-- The bytes of a text: the count of its bytes, and these. -/
def text? (content : Bytes) : Option Bytes := (length? content.length).map (· ++ content)

/-- Takes a text. -/
def textBytes : Decoder Bytes := do
  let content ← bytes (← numberUpTo .eight)
  if (Utf8.decode? content).isSome then return content else failure

/-- Takes the given count of items. -/
def items {α : Type} (item : Decoder α) : (count : Nat) → Decoder (List α)
  | 0 => return []
  | count + 1 => do
    let first ← item
    let others ← items item count
    return first :: others

end PrecompiledHeaders.Codec
