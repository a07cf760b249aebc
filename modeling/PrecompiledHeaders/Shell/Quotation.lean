import PrecompiledHeaders.Shell.Text
import PrecompiledHeaders.Text.Digits

/-!
# File names in complaints

A file name is shown in a complaint as it would have to be written for the shell: bare, if nothing
in it is special, and else in quotes. Quotes are single ones, between which characters that cannot
be shown are written by their codes; a name with a single quote in it is put between double ones,
if nothing is special there.
-/

namespace PrecompiledHeaders.Shell.FileName

/-- How a character stands in a name that is shown. -/
inductive Role
  /-- It is never special. -/
  | plain
  /-- It is special without quotes. -/
  | harmless
  /-- It is special without quotes, and maybe between double ones. -/
  | special
  /-- It is the single quote. -/
  | quote
  /-- It cannot be shown; what stands for it. -/
  | code (text : List Char)
deriving DecidableEq, Repr

/-- The letter that stands behind a backslash for a control character. -/
def controlLetter? : Char → Option Char
  | '\x07' => some 'a'
  | '\x08' => some 'b'
  | '\t' => some 't'
  | '\n' => some 'n'
  | '\x0b' => some 'v'
  | '\x0c' => some 'f'
  | '\r' => some 'r'
  | _ => none

/-- The code of a character in three digits to base eight. -/
def octal (c : Char) : List Char :=
  [c.toNat / 64, c.toNat / 8 % 8, c.toNat % 8].map Digits.ofValue

/-- How a character stands in a name; it may be the `first`, and the `only` one. -/
def role (first only : Bool) (c : Char) : Role :=
  match controlLetter? c with
  | some letter => .code ['\\', letter]
  | none =>
    if c < ' ' ∨ '\x7f' ≤ c then .code ('\\' :: octal c)
    else if c = '\'' then .quote
    else if c = ' ' ∨ c = ':' then .harmless
    else if c = '#' ∨ c = '~' then (if first then .harmless else .special)
    else if c = '\x7b' ∨ c = '\x7d' then (if only then .harmless else .special)
    else if c ∈ "?\\!\"$&()*;<=>[^\x60|".toList then .special
    else .plain

/-- The characters of a name with their roles. -/
def roles (name : List Char) : List (Char × Role) :=
  match name with
  | [] => []
  | [c] => [(c, role true true c)]
  | c :: rest => (c, role true false c) :: rest.map fun c => (c, role false false c)

/-- Whether a character may stand in a name without quotes. -/
def isBare (c : Char) : Role → Bool
  | .plain => true
  | .special => c ∈ ['#', '~', '\x7b', '\x7d']
  | _ => false

/-- What stands between single quotes for characters; `coded` says that codes are being written,
    which stand in quotes of their own. -/
def betweenQuotes (coded : Bool) : List (Char × Role) → List Char
  | [] => []
  | (_, .code text) :: rest =>
    (if coded then text else "'$'".toList ++ text) ++ betweenQuotes true rest
  | (_, .quote) :: rest => "'\\''".toList ++ betweenQuotes false rest
  | (c, _) :: rest => (if coded then ['\'', '\'', c] else [c]) ++ betweenQuotes false rest

/-- A name as it is shown. -/
def shown (name : List Char) : List Char :=
  let all := roles name
  if name ≠ [] ∧ all.all fun (c, role) => isBare c role then name
  else if all.any (fun (_, role) => role = .quote) ∧
      all.all (fun (_, role) => role = .quote ∨ role = .plain ∨ role = .harmless) then
    ['"'] ++ name ++ ['"']
  else
    -- What has a quote in it is gone through twice, the second time as the first has ended.
    let coded := all.any (fun (_, role) => role = .quote) && all.getLast?.any fun (_, role) =>
      match role with
      | .code _ => true
      | _ => false
    ['\''] ++ betweenQuotes coded all ++ ['\'']

end PrecompiledHeaders.Shell.FileName
