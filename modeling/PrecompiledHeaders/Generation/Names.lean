import PrecompiledHeaders.Hash.ContentHash
import PrecompiledHeaders.Path.Basic

/-!
# Names of generated files

Each precompiled header and the header it is compiled from have a name of their own in the output
directory. The name of a part's files shows the part and ends with a hash of its name, which
keeps parts apart that would be shown alike.
-/

namespace PrecompiledHeaders

/-- The name of the files for all parts, without what tells them apart. -/
def globalStem : List Char := "global-pch".toList

/-- Whether a character stands for itself in a file name. -/
def isSafe (c : Char) : Bool := c.isAlphanum ∨ c = '-' ∨ c = '_'

/-- The name of a part with every character replaced that might not do in a file name. -/
def sanitised (id : String) : List Char :=
  id.toList.map fun c => if isSafe c then c else '_'

/-- The name of the files of a part, without what tells them apart. -/
def partStem (id : String) : List Char :=
  sanitised id ++ '-' :: (ContentHash.ofBytes (Utf8.encode id.toList)).shortDigits

/-- The header file with a name in a directory. -/
def headerFile (directory : Path) (stem : List Char) : Path :=
  directory.join ⟨Utf8.encode (stem ++ ".h".toList)⟩

/-- The precompiled header with a name in a directory. -/
def precompiledFile (directory : Path) (stem : List Char) : Path :=
  directory.join ⟨Utf8.encode (stem ++ ".pch".toList)⟩

end PrecompiledHeaders
