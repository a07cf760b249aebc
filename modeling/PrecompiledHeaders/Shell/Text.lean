import PrecompiledHeaders.Path.Basic

/-!
# Text of the shell

The shell works on bytes. Its characters are those below 256, one for each byte, so that scripts,
arguments and file names need not be text for anyone else.
-/

namespace PrecompiledHeaders.Shell

/-- Bytes as characters of the shell. -/
def ofBytes (bytes : Bytes) : List Char := bytes.map fun b => Char.ofNat b.toNat

/-- Characters of the shell as bytes. -/
def toBytes (text : List Char) : Bytes := text.map fun c => UInt8.ofNat c.toNat

/-- The path that characters write. -/
def pathOf (text : List Char) : Path := ⟨toBytes text⟩

/-- The text of a path. -/
def textOf (p : Path) : List Char := ofBytes p.bytes

end PrecompiledHeaders.Shell
