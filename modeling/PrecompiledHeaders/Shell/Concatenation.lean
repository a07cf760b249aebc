import PrecompiledHeaders.Shell.Text

/-!
# Concatenating files

The layout of files that are written one after the other: lines may be numbered, blank lines
squeezed, and characters that cannot be seen made visible. What is known of the lines so far
(`Layout.State`) goes on from file to file.
-/

namespace PrecompiledHeaders.Shell

/-- What is done to files that are concatenated. -/
structure Layout where
  /-- Whether lines are numbered. -/
  numbersAll : Bool := false
  /-- Whether lines that are not blank are numbered. -/
  numbersFilled : Bool := false
  /-- Whether of several blank lines only one is written. -/
  squeezes : Bool := false
  /-- Whether the ends of lines are shown. -/
  showsEnds : Bool := false
  /-- Whether tabs are shown. -/
  showsTabs : Bool := false
  /-- Whether other characters are shown that cannot be seen. -/
  showsHidden : Bool := false
deriving DecidableEq, Repr

namespace Layout

/-- The layout with a letter that stands for an option added to it; none if there is no such
    option. -/
def withLetter? (layout : Layout) : Char → Option Layout
  | 'A' => some { layout with showsHidden := true, showsEnds := true, showsTabs := true }
  | 'b' => some { layout with numbersFilled := true }
  | 'e' => some { layout with showsHidden := true, showsEnds := true }
  | 'E' => some { layout with showsEnds := true }
  | 'n' => some { layout with numbersAll := true }
  | 's' => some { layout with squeezes := true }
  | 't' => some { layout with showsHidden := true, showsTabs := true }
  | 'T' => some { layout with showsTabs := true }
  | 'u' => some layout
  | 'v' => some { layout with showsHidden := true }
  | _ => none

/-- What is known of the lines that were written. -/
structure State where
  /-- How many lines were numbered. -/
  lines : Nat := 0
  /-- At the start of a line, how many blank lines are in front of it, up to two. -/
  blankLines? : Option Nat := some 0

/-- The next line number. -/
def nextNumber (state : State) : List Char × State :=
  let digits := Nat.toDigits 10 (state.lines + 1)
  (List.replicate (6 - digits.length) ' ' ++ digits ++ ['\t'],
    { state with lines := state.lines + 1 })

/-- A character below 128 that is made visible. -/
def visibleAscii (c : Nat) : List Char :=
  if c < 32 then ['^', Char.ofNat (c + 64)]
  else if c = 127 then ['^', '?']
  else [Char.ofNat c]

/-- A character as it is written; `next?` is the one behind it. -/
def character (layout : Layout) (c : Char) (next? : Option Char) : List Char :=
  if c = '\t' then (if layout.showsTabs then ['^', 'I'] else [c])
  else if layout.showsHidden then
    if c.toNat < 128 then visibleAscii c.toNat
    else ['M', '-'] ++ visibleAscii (c.toNat - 128)
  else if c = '\r' ∧ layout.showsEnds ∧ next? = some '\n' then ['^', 'M']
  else [c]

/-- A text as it is written. -/
def apply (layout : Layout) (state : State) : List Char → List Char × State
  | [] => ([], state)
  | '\n' :: rest =>
    match state.blankLines? with
    | none => ended [] { state with blankLines? := some 0 } rest
    | some blank =>
      let state' := { state with blankLines? := some (min (blank + 1) 2) }
      if layout.squeezes ∧ 0 < blank then apply layout state' rest
      else if layout.numbersAll ∧ !layout.numbersFilled then
        let (number, state') := nextNumber state'
        ended number state' rest
      else ended [] state' rest
  | c :: rest =>
    let (number, state') :=
      if state.blankLines?.isSome ∧ (layout.numbersAll ∨ layout.numbersFilled) then
        nextNumber state
      else ([], state)
    let (text, final) := apply layout { state' with blankLines? := none } rest
    (number ++ layout.character c rest.head? ++ text, final)
where
  /-- The end of a line, behind its number if it is blank. -/
  ended (number : List Char) (state : State) (rest : List Char) : List Char × State :=
    let (text, final) := apply layout state rest
    (number ++ (if layout.showsEnds then ['$', '\n'] else ['\n']) ++ text, final)

end Layout

end PrecompiledHeaders.Shell
