import PrecompiledHeaders.Text.Digits

/-!
# Diagnostic codes

A diagnostic code is a category letter and a number, written with at least three digits: `E101`.
Only numbers below a thousand can be read back, as reading wants exactly three digits.
-/

namespace PrecompiledHeaders

/-- The family a diagnostic code belongs to. -/
inductive Category
  /-- A unit or a precompiled header failed. -/
  | error
  /-- Something was skipped. -/
  | warning
  /-- A job could not be scheduled. -/
  | job
deriving DecidableEq, Repr, Inhabited

/-- The letter that codes of the category start with. -/
def Category.letter : Category → Char
  | .error => 'E'
  | .warning => 'W'
  | .job => 'J'

/-- The category with the given letter. -/
def Category.ofLetter? : Char → Option Category
  | 'E' => some .error
  | 'W' => some .warning
  | 'J' => some .job
  | _ => none

/-- A code that says which kind of problem a diagnostic is about. -/
structure DiagnosticCode where
  /-- The family. -/
  category : Category
  /-- The number within the family. -/
  number : Nat
deriving DecidableEq, Repr, Inhabited

namespace DiagnosticCode

/-! ### The codes in use -/

/-- A unit could not be read and was skipped. -/
def unreadableUnit : DiagnosticCode := ⟨.error, 101⟩
/-- The compiler failed or crashed on a unit. -/
def frontendFailure : DiagnosticCode := ⟨.error, 102⟩
/-- A precompiled header could not be emitted. -/
def emissionFailed : DiagnosticCode := ⟨.error, 103⟩
/-- An include directive led to no file. -/
def unresolvedInclude : DiagnosticCode := ⟨.warning, 201⟩
/-- An excluded include is no file. -/
def unresolvedExclusion : DiagnosticCode := ⟨.warning, 202⟩
/-- A job request could not be prepared. -/
def malformedJob : DiagnosticCode := ⟨.job, 301⟩

/-! ### Writing and reading -/

/-- A number with at least three digits. -/
def threeDigits (n : Nat) : List Char :=
  let digits := Nat.toDigits 10 n
  List.replicate (3 - digits.length) '0' ++ digits

/-- A code as text. -/
def text (code : DiagnosticCode) : String :=
  String.ofList (code.category.letter :: threeDigits code.number)

/-- Why a text is no code. -/
inductive ReadError
  /-- The first character names no category. -/
  | unknownCategory (text : String)
  /-- What follows the category is not three digits. -/
  | notThreeDigits (text : String)
deriving DecidableEq, Repr

/-- The text of the error. -/
def ReadError.message : ReadError → String
  | .unknownCategory text => s!"unknown diagnostic category in '{text}'"
  | .notThreeDigits text => s!"diagnostic code '{text}' needs three digits"

/-- The code that a text writes. -/
def ofText (text : String) : Except ReadError DiagnosticCode :=
  match text.toList with
  | [] => .error (.unknownCategory text)
  | letter :: digits =>
    match Category.ofLetter? letter with
    | none => .error (.unknownCategory text)
    | some category =>
      if digits.length = 3 ∧ digits.all Char.isDigit then .ok ⟨category, Digits.number 10 digits⟩
      else .error (.notThreeDigits text)

end DiagnosticCode

end PrecompiledHeaders
