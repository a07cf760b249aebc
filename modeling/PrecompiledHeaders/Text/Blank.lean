/-!
# Blanks

The characters with the property `White_Space` of the Unicode standard, and the trimming of
text by them. Core's `Char.isWhitespace` is the ASCII part without the vertical tab and the form
feed; directives, header traces and notes are trimmed by the whole property.
-/

namespace PrecompiledHeaders

/-- The characters with the property `White_Space`. -/
def isBlank (c : Char) : Bool :=
  ('\u0009' ≤ c ∧ c ≤ '\u000D') ∨ c = '\u0020' ∨ c = '\u0085' ∨ c = '\u00A0' ∨ c = '\u1680' ∨
    ('\u2000' ≤ c ∧ c ≤ '\u200A') ∨ c = '\u2028' ∨ c = '\u2029' ∨ c = '\u202F' ∨ c = '\u205F' ∨
    c = '\u3000'

/-- The text without the blanks it starts with. -/
def trimStart (text : List Char) : List Char :=
  text.dropWhile isBlank

/-- The text without the blanks it ends with. -/
def trimEnd (text : List Char) : List Char :=
  (text.reverse.dropWhile isBlank).reverse

/-- The text without the blanks at both ends. -/
def trim (text : List Char) : List Char :=
  trimEnd (trimStart text)

end PrecompiledHeaders
