import PrecompiledHeaders.Datum.Basic
import PrecompiledHeaders.Text.Digits
import PrecompiledHeaders.Text.Reader
import PrecompiledHeaders.Text.Utf8

/-!
# JSON

Reading (`Json.parse?`) and writing (`Json.compact`, `Json.pretty`) of data in JSON.

Texts are read by code unit: an escape may name half of a character outside the basic plane, and
two matching halves in a row make up that character. Numbers are of interest only if they are
whole and not too great. In written texts the two characters that would end the text early and the control
characters are escaped, and nothing else.
-/

namespace PrecompiledHeaders.Json

open Reader

/-! ### Reading -/

/-- The blanks of JSON. -/
def blanks : Reader Unit := do
  let _ ← takeWhile fun c => c = ' ' ∨ c = '\t' ∨ c = '\n' ∨ c = '\r'

/-- The character that an escape with one letter stands for. -/
def escaped? : Char → Option Char
  | '"' => some '"'
  | '\\' => some '\\'
  | '/' => some '/'
  | 'b' => some '\x08'
  | 'f' => some '\x0c'
  | 'n' => some '\n'
  | 'r' => some '\r'
  | 't' => some '\t'
  | _ => none

/-- The code of a character of a text, or of half of one. -/
def code : Reader Nat := do
  match ← next with
  | '\\' =>
    match ← next with
    | 'u' => StateT.lift (Digits.number? 16 (← take 4))
    | letter => return (← StateT.lift (escaped? letter)).toNat
  | c => if c < ' ' ∨ c = '"' then failure else return c.toNat

/-- The characters with the given codes, two halves of one in a row taken together; nothing if a
    half stands alone. -/
def characters? : List Nat → Option (List Char)
  | [] => some []
  | high :: low :: rest =>
    if 0xD800 ≤ high ∧ high < 0xDC00 ∧ 0xDC00 ≤ low ∧ low < 0xE000 then do
      return Char.ofNat (0x10000 + (high - 0xD800) * 0x400 + (low - 0xDC00)) :: (← characters? rest)
    else if 0xD800 ≤ high ∧ high < 0xE000 then none
    else do return Char.ofNat high :: (← characters? (low :: rest))
  | [code] => if 0xD800 ≤ code ∧ code < 0xE000 then none else some [Char.ofNat code]

/-- A text with its quotes; none if it has no text. -/
def text : Reader (Option String) := do
  exactly '"'
  let codes ← many code
  exactly '"'
  return (characters? codes).map String.ofList

/-- How many digits a whole number may have that is of interest. -/
def maximalDigits : Nat := 20

/-- A number. -/
def number : Reader Datum := do
  let negative ← (do exactly '-'; return true) <|> return false
  let digits : List Char ← (do exactly '0'; return ['0']) <|> takeWhile1 Char.isDigit
  let fraction : Bool ← (do exactly '.'; let _ ← takeWhile1 Char.isDigit; return true) <|> return false
  let next? ← peek
  -- A point without a digit behind it belongs to no number.
  if next? = some '.' then failure
  if next? = some 'e' ∨ next? = some 'E' then
    let _ ← next
    let sign? ← peek
    if sign? = some '+' ∨ sign? = some '-' then
      let _ ← next
    let _ ← takeWhile1 Char.isDigit
    return .decimal
  if fraction ∨ maximalDigits < digits.length then return .decimal
  let value := Digits.number 10 digits
  return .integer (if negative then -value else value)

/-- A value; `depth` bounds how deep lists and records stand in each other. -/
def value : (depth : Nat) → Reader Datum
  | 0 => failure
  | depth + 1 => do
    match ← peek with
    | some '{' =>
      let _ ← next
      blanks
      (do exactly '}'; return .record []) <|> do
        let fields ← separated
          (do let name? ← text; blanks; exactly ':'; blanks
              let field ← value depth; blanks; return (name?, field))
          (do exactly ','; blanks)
        exactly '}'
        return .record fields
    | some '[' =>
      let _ ← next
      blanks
      (do exactly ']'; return .list []) <|> do
        let items ← separated (do let item ← value depth; blanks; return item)
          (do exactly ','; blanks)
        exactly ']'
        return .list items
    | some '"' => return .text (← text)
    | some 't' => word "true".toList; return .bool true
    | some 'f' => word "false".toList; return .bool false
    | some 'n' => word "null".toList; return .null
    | _ => number

/-- The datum that a text in JSON writes. -/
def parse? (text : List Char) : Option Datum :=
  Reader.parse? (fun depth => do blanks; let d ← value depth; blanks; return d) text

/-- The datum that bytes in JSON write. -/
def ofBytes? (bytes : Bytes) : Option Datum := do
  parse? (← Utf8.decode? bytes)

/-! ### Writing -/

/-- A character as it stands in a written text. -/
def escape (c : Char) : List Char :=
  match c with
  | '"' => ['\\', '"']
  | '\\' => ['\\', '\\']
  | '\x08' => ['\\', 'b']
  | '\x0c' => ['\\', 'f']
  | '\n' => ['\\', 'n']
  | '\r' => ['\\', 'r']
  | '\t' => ['\\', 't']
  | c => if c < ' ' then '\\' :: 'u' :: Digits.hexadecimal 4 c.toNat else [c]

/-- A written text, with its quotes. -/
def quoted (s : String) : String :=
  String.ofList ('"' :: s.toList.flatMap escape ++ ['"'])

mutual

/-- A datum on one line, without blanks. -/
def compact : Datum → String
  | .null => "null"
  | .bool value => if value then "true" else "false"
  | .integer value => toString value
  | .decimal => "null"
  | .text value? => quoted (value?.getD "")
  | .list items => "[" ++ ",".intercalate (compactItems items) ++ "]"
  | .record fields => "\x7b" ++ ",".intercalate (compactFields fields) ++ "\x7d"

/-- The items of a list, each on one line. -/
def compactItems : List Datum → List String
  | [] => []
  | item :: rest => compact item :: compactItems rest

/-- The fields of a record, each on one line. -/
def compactFields : List (Option String × Datum) → List String
  | [] => []
  | (name?, field) :: rest =>
    (quoted (name?.getD "") ++ ":" ++ compact field) :: compactFields rest

end

/-- The blanks in front of a line at the given depth. -/
def indentation (depth : Nat) : String :=
  String.ofList (List.replicate (2 * depth) ' ')

/-- Lines between brackets, one deeper than the brackets. -/
def block (depth : Nat) (opening closing : String) : List String → String
  | [] => opening ++ closing
  | lines =>
    opening ++ "\n" ++ ",\n".intercalate (lines.map (indentation (depth + 1) ++ ·)) ++ "\n" ++
      indentation depth ++ closing

mutual

/-- A datum over several lines, each item and each field on its own, indented by its depth. -/
def pretty (depth : Nat) : Datum → String
  | .list items => block depth "[" "]" (prettyItems depth items)
  | .record fields => block depth "\x7b" "\x7d" (prettyFields depth fields)
  | .null => compact .null
  | .bool value => compact (.bool value)
  | .integer value => compact (.integer value)
  | .decimal => compact .decimal
  | .text value? => compact (.text value?)

/-- The items of a list at the given depth. -/
def prettyItems (depth : Nat) : List Datum → List String
  | [] => []
  | item :: rest => pretty (depth + 1) item :: prettyItems depth rest

/-- The fields of a record at the given depth. -/
def prettyFields (depth : Nat) : List (Option String × Datum) → List String
  | [] => []
  | (name?, field) :: rest =>
    (quoted (name?.getD "") ++ ": " ++ pretty (depth + 1) field) :: prettyFields depth rest

end

end PrecompiledHeaders.Json
