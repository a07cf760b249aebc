/-!
# Bytes and UTF-8

File contents, paths and the output of compilers are strings of bytes; messages and include
spellings are text. The two meet in UTF-8. Bytes that are no UTF-8 are cut into *pieces*
(`Utf8.pieces`): characters, and maximal runs that start like a character but cannot be
completed. From the pieces come the strict reading (`Utf8.decode?`), which refuses any invalid
piece, and the lossy one (`Utf8.decodeLossy`), which shows each as one replacement character.
-/

namespace PrecompiledHeaders

/-- A string of bytes. -/
abbrev Bytes := List UInt8

namespace Utf8

/-- The bytes of a text. -/
def encode (text : List Char) : Bytes :=
  text.flatMap String.utf8EncodeChar

/-- What the bytes at some place spell: a character, or bytes that belong to none. -/
inductive Piece where
  /-- A character, written in UTF-8. -/
  | char (c : Char)
  /-- The longest run of bytes that a character could have started with. -/
  | invalid (bytes : Bytes)
deriving DecidableEq, Repr

/-- What the first byte of a character says about the rest of it. -/
structure Lead where
  /-- The leading bits of the character's code. -/
  bits : Nat
  /-- How many continuation bytes follow. -/
  count : Nat
  /-- The least value of the first of them. -/
  low : UInt8
  /-- The greatest value of the first of them. -/
  high : UInt8

/-- The meaning of a first byte, or nothing if no character starts with it. The bounds on the
    second byte keep out overlong forms, surrogates and codes above `0x10FFFF`. -/
def Lead.ofByte? (b : UInt8) : Option Lead :=
  if b < 0x80 then some ⟨b.toNat, 0, 0x80, 0xBF⟩
  else if b < 0xC2 then none
  else if b < 0xE0 then some ⟨b.toNat - 0xC0, 1, 0x80, 0xBF⟩
  else if b < 0xF0 then
    some ⟨b.toNat - 0xE0, 2, if b = 0xE0 then 0xA0 else 0x80, if b = 0xED then 0x9F else 0xBF⟩
  else if b < 0xF5 then
    some ⟨b.toNat - 0xF0, 3, if b = 0xF0 then 0x90 else 0x80, if b = 0xF4 then 0x8F else 0xBF⟩
  else none

/-- Reads `count` continuation bytes, the first within the bounds of the lead, into the bits read
    so far; `taken` are the bytes of the character already passed, last first. -/
def continuation (bits : Nat) (taken : Bytes) (low high : UInt8) :
    (count : Nat) → Bytes → Piece × Bytes
  | 0, rest => (.char (Char.ofNat bits), rest)
  | _ + 1, [] => (.invalid taken.reverse, [])
  | count + 1, b :: rest =>
    if low ≤ b ∧ b ≤ high then
      continuation (bits * 64 + (b.toNat - 0x80)) (b :: taken) 0x80 0xBF count rest
    else (.invalid taken.reverse, b :: rest)

/-- The piece that starts with the byte `b`, and the bytes after it. -/
def piece (b : UInt8) (rest : Bytes) : Piece × Bytes :=
  match Lead.ofByte? b with
  | none => (.invalid [b], rest)
  | some lead => continuation lead.bits [b] lead.low lead.high lead.count rest

theorem continuation_length_le (bits : Nat) (taken : Bytes) (low high : UInt8) (count : Nat)
    (rest : Bytes) : (continuation bits taken low high count rest).2.length ≤ rest.length := by
  induction count generalizing bits taken low high rest with
  | zero => simp [continuation]
  | succ count ih =>
    cases rest with
    | nil => simp [continuation]
    | cons b rest =>
      simp only [continuation]
      split
      · exact Nat.le_succ_of_le (ih ..)
      · exact Nat.le_refl _

/-- A piece is taken off the front: what follows it is no longer than what followed its first
    byte. -/
theorem piece_length_le (b : UInt8) (rest : Bytes) : (piece b rest).2.length ≤ rest.length := by
  unfold piece
  split
  · exact Nat.le_refl _
  · exact continuation_length_le ..

/-- The pieces of some bytes, in order. -/
def pieces : Bytes → List Piece
  | [] => []
  | b :: rest => (piece b rest).1 :: pieces (piece b rest).2
termination_by bytes => bytes.length
decreasing_by exact Nat.lt_succ_of_le (piece_length_le b rest)

/-- The character a piece is shown as: itself, or the replacement character. -/
def Piece.shown : Piece → Char
  | .char c => c
  | .invalid _ => '\uFFFD'

/-- The character of a piece, if it is one. -/
def Piece.char? : Piece → Option Char
  | .char c => some c
  | .invalid _ => none

/-- The text of some bytes, with one replacement character for each invalid piece. -/
def decodeLossy (bytes : Bytes) : List Char :=
  (pieces bytes).map Piece.shown

/-- The text of some bytes, if they are valid throughout. -/
def decode? (bytes : Bytes) : Option (List Char) :=
  (pieces bytes).mapM Piece.char?

end Utf8

end PrecompiledHeaders
