import PrecompiledHeaders.Path.Basic
import PrecompiledHeaders.Text.Digits

/-!
# Keys of paths

Interners hold texts, and a path is any string of bytes. So each path has a text of its own, its
*key* (`Path.key`), from which it is read back (`Path.ofKey?`). The key of a path that is text is
that text. Other paths are spelled out, two hexadecimal digits for a byte, behind a mark. As a text
could start with the mark, such texts are spelled out too, and the two kinds of keys never meet.
-/

namespace PrecompiledHeaders.Path

/-- What stands in front of bytes that are spelled out. -/
def mark : Char := '\x00'

/-- Bytes, spelled out in two hexadecimal digits each. -/
def spell (bytes : Bytes) : List Char :=
  bytes.flatMap fun b => Digits.hexadecimal 2 b.toNat

/-- The text by which a path is known. -/
def key (p : Path) : List Char :=
  match Utf8.decode? p.bytes with
  | some text => if text.head? = some mark then mark :: spell p.bytes else text
  | none => mark :: spell p.bytes

/-- The byte that one or two hexadecimal digits spell. A plus may stand in place of the first of
    two. -/
def byte? (digits : List Char) : Option UInt8 :=
  match digits with
  | ['+', digit] => (Digits.number? 16 [digit]).map UInt8.ofNat
  | digits => (Digits.number? 16 digits).map UInt8.ofNat

/-- The bytes that a text spells. -/
def unspell? : List Char → Option Bytes
  | [] => some []
  | [digit] => do return [← byte? [digit]]
  | first :: second :: rest => do return (← byte? [first, second]) :: (← unspell? rest)

/-- The path with a key. -/
def ofKey? (key : List Char) : Option Path :=
  if key.head? = some mark then (unspell? key.tail).map Path.mk else some ⟨Utf8.encode key⟩

end PrecompiledHeaders.Path
