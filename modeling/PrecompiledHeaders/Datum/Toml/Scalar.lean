import PrecompiledHeaders.Datum.Basic
import PrecompiledHeaders.Text.Digits
import PrecompiledHeaders.Text.Reader

/-!
# Scalars of TOML

The values of TOML that hold no others: texts in their four forms, whole numbers, decimals,
truth values, dates and times; and what surrounds them, blanks, comments and keys.
-/

namespace PrecompiledHeaders.Toml

open Reader

/-! ### Blanks and comments -/

/-- The blanks within a line. -/
def isBlank (c : Char) : Bool := c = ' ' ∨ c = '\t'

/-- The characters that may stand in a comment: all but control characters; a tab may. -/
def isPlain (c : Char) : Bool := c = '\t' ∨ (' ' ≤ c ∧ c ≠ '\x7f')

/-- Blanks within a line. -/
def blanks : Reader Unit := do
  let _ ← takeWhile isBlank

/-- The end of a line. -/
def newline : Reader Unit :=
  word ['\n'] <|> word ['\r', '\n']

/-- A comment, up to the end of its line. -/
def comment : Reader Unit := do
  exactly '#'
  let _ ← takeWhile isPlain

/-- Blanks, ends of lines and comments. -/
def blankLines : Reader Unit := do
  let _ ← many ((do let _ ← takeWhile1 isBlank) <|> newline <|> comment)

/-- What may follow on a line after its content: blanks, a comment, the end of the line. -/
def lineEnd : Reader Unit := do
  blanks
  comment <|> return
  newline <|> atEnd

/-! ### Texts -/

/-- The character with the code that the given number of hexadecimal digits name. -/
def codeEscape (count : Nat) : Reader Char := do
  let code ← StateT.lift (Digits.number? 16 (← take count))
  if code.isValidChar then return Char.ofNat code else failure

/-- A character written as an escape. -/
def escape : Reader Char := do
  exactly '\\'
  match ← next with
  | 'b' => return '\x08'
  | 't' => return '\t'
  | 'n' => return '\n'
  | 'f' => return '\x0c'
  | 'r' => return '\r'
  | '"' => return '"'
  | '\\' => return '\\'
  | 'u' => codeEscape 4
  | 'U' => codeEscape 8
  | _ => failure

/-- The characters that stand for themselves between double quotes. -/
def isBasic (c : Char) : Bool := isPlain c ∧ c ≠ '"' ∧ c ≠ '\\'

/-- The characters that may stand between single quotes. -/
def isLiteral (c : Char) : Bool := isPlain c ∧ c ≠ '\''

/-- A text between double quotes, on one line. -/
def basicText : Reader (List Char) := do
  exactly '"'
  let content ← many (satisfy isBasic <|> escape)
  exactly '"'
  return content

/-- A text between single quotes, on one line. -/
def literalText : Reader (List Char) := do
  exactly '\''
  let content ← takeWhile isLiteral
  exactly '\''
  return content

/-- A backslash at the end of a line: it, the end of the line and all blanks and line ends that
    follow are no part of the text. -/
def continuedLine : Reader Unit := do
  exactly '\\'
  blanks
  newline
  let _ ← many ((do let _ ← satisfy isBlank) <|> newline)

/-- One or two quotes within a text that ends with three. -/
def innerQuotes (quote : Char) : Reader (List Char) := do
  let run ← takeWhile (· = quote)
  if run.length = 1 ∨ run.length = 2 then return run else failure

/-- The end of a text that ends with three quotes. Up to two more may stand in front of them,
    which belong to the text. -/
def closingQuotes (quote : Char) : Reader (List Char) := do
  let run ← takeWhile (· = quote)
  if 3 ≤ run.length ∧ run.length ≤ 5 then return run.drop 3 else failure

/-- A text over several lines between three quotes. A line end right after the opening quotes
    is no part of it. -/
def linesText (quote : Char) (content : Reader (List Char)) : Reader (List Char) := do
  word [quote, quote, quote]
  newline <|> return
  let pieces ← many (content <|> (do newline; return ['\n']) <|> innerQuotes quote)
  return pieces.flatten ++ (← closingQuotes quote)

/-- A text over several lines between double quotes. -/
def basicLines : Reader (List Char) :=
  linesText '"' <|
    (do return [← satisfy isBasic]) <|> (do continuedLine; return []) <|> (do return [← escape])

/-- A text over several lines between single quotes. -/
def literalLines : Reader (List Char) :=
  linesText '\'' (do return [← satisfy isLiteral])

/-- A text in any form. -/
def text : Reader (List Char) :=
  basicLines <|> basicText <|> literalLines <|> literalText

/-! ### Keys -/

/-- The characters of keys without quotes. -/
def isBare (c : Char) : Bool := c.isAlphanum ∨ c = '-' ∨ c = '_'

/-- A simple key. -/
def simpleKey : Reader String := do
  return String.ofList (← basicText <|> literalText <|> takeWhile1 isBare)

/-- How deep values may be nested, and how many simple keys a dotted key may have. -/
def maximalDepth : Nat := 79

/-- A key: simple keys with dots between them. -/
def key : Reader (List String) := do
  let path ← separated (do blanks; let k ← simpleKey; blanks; return k) (exactly '.')
  if path.length ≤ maximalDepth then return path else failure

/-! ### Numbers -/

/-- Digits of a kind; between two digits there may be an underscore, which says nothing. -/
def digits (kind : Char → Bool) : Reader (List Char) := do
  let first ← satisfy kind
  let others ← many (satisfy kind <|> do exactly '_'; satisfy kind)
  return first :: others

/-- Decimal digits that do not start with a zero, or a zero alone. -/
def wholeDigits : Reader (List Char) :=
  (do exactly '0'; return ['0']) <|> digits Char.isDigit

/-- A sign; whether it is a minus. -/
def sign : Reader Bool :=
  (do exactly '-'; return true) <|> (do exactly '+'; return false) <|> return false

/-- How many digits a number of 64 bits has at most, to any base. -/
def maximalDigits : Nat := 64

/-- The whole number with a sign and digits, if it has a place among those of 64 bits. -/
def bounded (negative : Bool) (base : Nat) (digits : List Char) : Reader Int :=
  let digits := digits.dropWhile (· = '0')
  if maximalDigits < digits.length then failure
  else
    let n := Digits.number base digits
    let n : Int := if negative then -n else n
    if -0x8000000000000000 ≤ n ∧ n < 0x8000000000000000 then return n else failure

/-- A whole number to a base that the prefix names. -/
def basedInteger (letter : Char) (base : Nat) : Reader Int := do
  word ['0', letter]
  bounded false base (← digits (Digits.isDigit base))

/-- A whole number. -/
def integer : Reader Int :=
  basedInteger 'x' 16 <|> basedInteger 'o' 8 <|> basedInteger 'b' 2 <|> do
    let negative ← sign
    bounded negative 10 (← wholeDigits)

/-- Whether the number `digits * 10 ^ exponent` is beyond the greatest double: it is nearer to
    `2 ^ 1024` than to the double below. The number of digits in front of the point decides far
    from there, and these digits alone near to it, as the bound is whole. -/
def isHuge (digits : List Char) (exponent : Int) : Bool :=
  let digits := digits.dropWhile (· = '0')
  let places := digits.length + exponent
  if digits = [] ∨ places ≤ 308 then false
  else if 310 < places then true
  else
    let whole := digits.take places.toNat
    Nat.pow 2 1024 - Nat.pow 2 970 ≤
      Digits.number 10 whole * Nat.pow 10 (places.toNat - whole.length)

/-- The exponent with a sign and digits. Beyond twenty digits its exact size makes no difference, as
    no number has so many digits of its own. -/
def exponent (negative : Bool) (digits : List Char) : Int :=
  let n := Digits.number 10 ((digits.dropWhile (· = '0')).take 20)
  if negative then -n else n

/-- A number with a fraction or an exponent. A positive one that no double comes near is
    refused. -/
def decimal : Reader Unit := do
  let negative ← sign
  let whole ← wholeDigits
  let fraction ← (do exactly '.'; digits Char.isDigit) <|> return []
  let exponent? ← (do
      exactly 'e' <|> exactly 'E'
      return some (exponent (← sign) (← digits Char.isDigit))) <|> return none
  if fraction = [] ∧ exponent? = none then failure
  if !negative ∧ isHuge (whole ++ fraction) (exponent?.getD 0 - fraction.length) then failure

/-- A number that is infinite, or none. -/
def specialDecimal : Reader Unit := do
  let _ ← sign
  word ['i', 'n', 'f'] <|> word ['n', 'a', 'n']

/-! ### Dates and times -/

/-- A number of the given count of decimal digits, within bounds. -/
def fixedNumber (count low high : Nat) : Reader Nat := do
  let digits ← take count
  let value := Digits.number 10 digits
  if digits.all Char.isDigit ∧ low ≤ value ∧ value ≤ high then return value else failure

/-- The number of days in a month. -/
def daysIn (year month : Nat) : Nat :=
  if month = 2 then
    if year % 4 = 0 ∧ (year % 100 ≠ 0 ∨ year % 400 = 0) then 29 else 28
  else if month ∈ [4, 6, 9, 11] then 30
  else 31

/-- A date. -/
def date : Reader Unit := do
  let year ← fixedNumber 4 0 9999
  exactly '-'
  let month ← fixedNumber 2 1 12
  exactly '-'
  let _ ← fixedNumber 2 1 (daysIn year month)

/-- A time of day. -/
def time : Reader Unit := do
  let _ ← fixedNumber 2 0 23
  exactly ':'
  let _ ← fixedNumber 2 0 59
  exactly ':'
  let _ ← fixedNumber 2 0 60
  (do exactly '.'; let _ ← takeWhile1 Char.isDigit) <|> return

/-- The distance of a local time from universal time. -/
def offset : Reader Unit :=
  (do let _ ← satisfy fun c => c = 'Z' ∨ c = 'z') <|> do
    let _ ← satisfy fun c => c = '+' ∨ c = '-'
    let _ ← fixedNumber 2 0 23
    exactly ':'
    let _ ← fixedNumber 2 0 59

/-- A date, a time, or both. -/
def dateTime : Reader Unit :=
  (do
    date
    (do
      let _ ← satisfy fun c => c = 'T' ∨ c = 't' ∨ c = ' '
      time
      offset <|> return) <|> return) <|> time

/-! ### Any scalar -/

/-- A value that holds no others. A date or time is read as a record without fields, as which it
    passes where a record is wanted. -/
def scalar : Reader Datum := do
  match ← peek with
  | some '"' | some '\'' => return .text (some (String.ofList (← text)))
  | some 't' => word "true".toList; return .bool true
  | some 'f' => word "false".toList; return .bool false
  | _ =>
    (do dateTime; return .record []) <|> (do decimal; return .decimal) <|>
      (do specialDecimal; return .decimal) <|> (do return .integer (← integer))

end PrecompiledHeaders.Toml
