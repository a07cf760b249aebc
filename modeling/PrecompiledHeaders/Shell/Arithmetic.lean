import PrecompiledHeaders.Text.Digits

/-!
# Arithmetic of the shell

Expressions with whole numbers of 64 bits, variables and assignments (`Arithmetic.evaluate`).
What does not count, such as one side of a choice, is read but not worked out.
-/

namespace PrecompiledHeaders.Shell.Arithmetic

/-- A piece of an expression. -/
inductive Token
  /-- A number. -/
  | number (n : Int)
  /-- The name of a variable. -/
  | name (text : List Char)
  /-- An operator or a bracket. -/
  | sign (text : String)
  /-- Something else. -/
  | unknown
deriving DecidableEq, Repr

/-- Why an expression has no value. -/
inductive Failure
  /-- It is no expression; what is wrong with it. -/
  | malformed (why : String)
  /-- A variable has a value that is no number. -/
  | noNumber (text : List Char)
deriving DecidableEq, Repr

/-! ### Numbers -/

/-- The number of 64 bits that a number becomes where it does not fit. -/
def wrapped (n : Int) : Int := n.bmod (Nat.pow 2 64)

/-- The number of 64 bits nearest to a number. -/
def clamped (n : Int) : Int := max (-Int.pow 2 63) (min n (Int.pow 2 63 - 1))

/-- The number that a text starts with, to the base that it is written in, and the rest. -/
def numberFront (text : List Char) : Nat × List Char :=
  let (base, digits) : Nat × List Char := match text with
    | '0' :: x :: rest =>
      if (x = 'x' ∨ x = 'X') ∧ rest.head?.any (Digits.isDigit 16) then (16, rest)
      else (8, '0' :: x :: rest)
    | '0' :: rest => (8, '0' :: rest)
    | text => (10, text)
  let taken := digits.takeWhile (Digits.isDigit base)
  (Digits.number base taken, digits.drop taken.length)

/-- Whether a character is a blank. -/
def isBlank (c : Char) : Bool := c = ' ' || ('\t' ≤ c && c ≤ '\r')

/-- The number that the value of a variable writes; nothing counts as zero. -/
def valueNumber? (text : List Char) : Option Int :=
  let bare := text.dropWhile isBlank
  let (negative, digits) : Bool × List Char := match bare with
    | '-' :: rest => (true, rest)
    | '+' :: rest => (false, rest)
    | rest => (false, rest)
  let (n, rest) := numberFront digits
  let value := if negative then -(n : Int) else n
  if digits.head?.any Char.isDigit then
    if rest.all isBlank ∧ clamped value = value then some value else none
  else if text.all isBlank then some 0 else none

/-! ### Tokens -/

/-- The operators, those first that others are the front of. -/
def operators : List String :=
  ["<<=", ">>=", "==", "!=", "<=", ">=", "<<", ">>", "&&", "||", "*=", "/=", "%=", "+=", "-=",
    "&=", "^=", "|=", "=", "<", ">", "+", "-", "*", "/", "%", "&", "^", "|", "!", "~", "?", ":",
    "(", ")"]

/-- The tokens of an expression; each takes at least one step. -/
def tokens : (steps : Nat) → List Char → List Token
  | 0, _ | _, [] => []
  | steps + 1, c :: rest =>
    if c = ' ' ∨ c = '\t' ∨ c = '\n' then tokens steps rest
    else if c.isDigit then
      let (n, final) := numberFront (c :: rest)
      .number (clamped n) :: tokens steps final
    else if c.isAlpha ∨ c = '_' then
      let isName (c : Char) : Bool := c.isAlphanum || c = '_'
      .name (c :: rest.takeWhile isName) :: tokens steps (rest.dropWhile isName)
    else match operators.find? fun operator => operator.toList.isPrefixOf (c :: rest) with
      | some operator => .sign operator :: tokens steps ((c :: rest).drop operator.length)
      | none => [.unknown]

/-! ### Values -/

/-- An expression that is being worked out. -/
structure State where
  /-- What is left of it. -/
  tokens : List Token
  /-- The variables. -/
  bindings : List (List Char × List Char)

/-- Works out a part of an expression. -/
abbrev Calculation (α : Type) := StateT State (Except Failure) α

/-- Fails because the expression is none. -/
def malformed {α : Type} (why : String) : Calculation α := throw (.malformed why)

/-- Takes the next token if it is one of the given signs. -/
def sign? (signs : List String) : Calculation (Option String) := do
  let s ← get
  match s.tokens with
  | .sign text :: rest =>
    if text ∈ signs then
      set { s with tokens := rest }
      return some text
    else return none
  | _ => return none

/-- The value of a variable. -/
def valueOf (name : List Char) : Calculation Int := do
  let text := ((← get).bindings.lookup name).getD []
  match valueNumber? text with
  | some n => return n
  | none => throw (.noNumber text)

/-- One for what holds, and zero for what does not. -/
def truth (b : Bool) : Int := if b then 1 else 0

/-- What an operator makes of two numbers. -/
def apply (operator : String) (a b : Int) : Calculation Int :=
  let bits (f : BitVec 64 → BitVec 64 → BitVec 64) : Int := (f (.ofInt 64 a) (.ofInt 64 b)).toInt
  match operator with
  | "*" => return wrapped (a * b)
  | "/" => if b = 0 then malformed "division by zero" else return wrapped (a.tdiv b)
  | "%" => if b = 0 then malformed "division by zero" else return wrapped (a.tmod b)
  | "+" => return wrapped (a + b)
  | "-" => return wrapped (a - b)
  | "<<" => return bits fun x y => x <<< (y % 64)
  | ">>" => return bits fun x y => x.sshiftRight (y % 64).toNat
  | "<" => return truth (a < b)
  | "<=" => return truth (a ≤ b)
  | ">" => return truth (a > b)
  | ">=" => return truth (a ≥ b)
  | "==" => return truth (a = b)
  | "!=" => return truth (a ≠ b)
  | "&" => return bits (· &&& ·)
  | "^" => return bits (· ^^^ ·)
  | _ => return bits (· ||| ·)

/-- The operators between two numbers, those first that bind most tightly. -/
def levels : List (List String) :=
  [["*", "/", "%"], ["+", "-"], ["<<", ">>"], ["<", "<=", ">", ">="], ["==", "!="], ["&"], ["^"],
    ["|"]]

/-- The operator that an assignment applies to the old value; none if it is no assignment. -/
def assigning? : String → Option String
  | "=" => some ""
  | "==" | "!=" | "<=" | ">=" => none
  | operator =>
    if operator.endsWith "=" then some (String.ofList operator.toList.dropLast) else none

mutual

/-- An assignment, or a choice. With `idle`, nothing is worked out. -/
def assignment (idle : Bool) : (steps : Nat) → Calculation Int
  | 0 => malformed "expecting primary"
  | steps + 1 => do
    let s ← get
    match s.tokens with
    | .name name :: .sign operator :: rest =>
      match assigning? operator with
      | none => choice idle steps
      | some operator =>
        set { s with tokens := rest }
        let value ← assignment idle steps
        if idle then return value
        let value ← if operator = "" then pure value
          else do apply operator (← valueOf name) value
        modify fun s =>
          { s with bindings := (name, (toString value).toList) ::
              s.bindings.filter (·.1 ≠ name) }
        return value
    | _ => choice idle steps

/-- A choice by a question mark, or a disjunction. -/
def choice (idle : Bool) : (steps : Nat) → Calculation Int
  | 0 => malformed "expecting primary"
  | steps + 1 => do
    let a ← disjunction idle steps
    match ← sign? ["?"] with
    | none => return a
    | some _ =>
      let yes ← assignment (idle || a = 0) steps
      if (← sign? [":"]).isNone then malformed "expecting ':'"
      let no ← choice (idle || a ≠ 0) steps
      return if a ≠ 0 then yes else no

/-- Conjunctions of which one has to hold. -/
def disjunction (idle : Bool) : (steps : Nat) → Calculation Int
  | 0 => malformed "expecting primary"
  | steps + 1 => do
    let a ← conjunction idle steps
    match ← sign? ["||"] with
    | none => return a
    | some _ =>
      let b ← disjunction (idle || a ≠ 0) steps
      return truth (a ≠ 0 || b ≠ 0)

/-- Terms all of which have to hold. -/
def conjunction (idle : Bool) : (steps : Nat) → Calculation Int
  | 0 => malformed "expecting primary"
  | steps + 1 => do
    let a ← term idle levels.length steps
    match ← sign? ["&&"] with
    | none => return a
    | some _ =>
      let b ← conjunction (idle || a = 0) steps
      return truth (a ≠ 0 && b ≠ 0)

/-- Numbers with operators between them, of the given number of levels. -/
def term (idle : Bool) (level : Nat) : (steps : Nat) → Calculation Int
  | 0 => malformed "expecting primary"
  | steps + 1 => do
    match level with
    | 0 => primary idle steps
    | level + 1 => termFrom idle level (← term idle level steps) steps

/-- Further operators of a level behind a number. -/
def termFrom (idle : Bool) (level : Nat) (a : Int) : (steps : Nat) → Calculation Int
  | 0 => malformed "expecting primary"
  | steps + 1 => do
    match ← sign? (levels.getD level []) with
    | none => return a
    | some operator =>
      let b ← term idle level steps
      termFrom idle level (← if idle then pure b else apply operator a b) steps

/-- A number, a variable or an expression in brackets, with signs in front of it. -/
def primary (idle : Bool) : (steps : Nat) → Calculation Int
  | 0 => malformed "expecting primary"
  | steps + 1 => do
    let s ← get
    set { s with tokens := s.tokens.tail }
    match s.tokens with
    | .number n :: _ => return n
    | .name name :: _ => if idle then return 0 else valueOf name
    | .sign "(" :: _ =>
      let n ← assignment idle steps
      if (← sign? [")"]).isNone then malformed "expecting ')'"
      return n
    | .sign "+" :: _ => primary idle steps
    | .sign "-" :: _ => return wrapped (-(← primary idle steps))
    | .sign "!" :: _ => return truth ((← primary idle steps) = 0)
    | .sign "~" :: _ => return -(← primary idle steps) - 1
    | _ => malformed "expecting primary"

end

/-- The value of an expression, and the variables as they are then. -/
def evaluate (bindings : List (List Char × List Char)) (text : List Char) :
    Except Failure (Int × List (List Char × List Char)) := do
  let all := tokens text.length text
  let (n, s) ← (assignment false (16 * (all.length + 1))).run ⟨all, bindings⟩
  if s.tokens.isEmpty then return (n, s.bindings) else throw (.malformed "expecting EOF")

end PrecompiledHeaders.Shell.Arithmetic
