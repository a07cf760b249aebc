import PrecompiledHeaders.Shell.Text

/-!
# Shell patterns

Patterns of the shell: an asterisk stands for any characters, a question mark for one, brackets
for one of a set. Quoted characters stand for themselves, and so does what follows a backslash.
-/

namespace PrecompiledHeaders.Shell

/-- A character of a word, and whether it was quoted. -/
structure Mark where
  /-- The character. -/
  char : Char
  /-- Whether it stands for itself whatever it is. -/
  quoted : Bool
deriving DecidableEq, Repr

/-- Characters that were not quoted. -/
def plain (text : List Char) : List Mark := text.map (⟨·, false⟩)

/-- Characters that were quoted. -/
def quoted (text : List Char) : List Mark := text.map (⟨·, true⟩)

/-- The characters of a word. -/
def characters (word : List Mark) : List Char := word.map Mark.char

/-- Whether a character of a word is the given one, and not quoted. -/
def Mark.isSign (m : Mark) (c : Char) : Bool := m.char = c && !m.quoted

/-- What a set of characters has in it. -/
inductive Member
  /-- The characters from one to another. -/
  | range (low high : Char)
  /-- The characters of a class. -/
  | ofClass (holds : Char → Bool)

namespace Member

/-- The place of a character among others: those above 127 come first. -/
def rank (c : Char) : Nat := (c.toNat + 128) % 256

/-- Whether a character is in the set. -/
def holds (c : Char) : Member → Bool
  | range low high => rank low ≤ rank c && rank c ≤ rank high
  | ofClass holds => holds c

/-- Whether a character has an ink of its own. -/
def isGraphic (c : Char) : Bool := '!' ≤ c && c ≤ '~'

/-- The classes of characters by their names. -/
def classes : List (String × (Char → Bool)) :=
  [("alnum", Char.isAlphanum), ("alpha", Char.isAlpha), ("blank", fun c => c = ' ' || c = '\t'),
    ("cntrl", fun c => c < ' ' || c = '\x7f'), ("digit", Char.isDigit), ("graph", isGraphic),
    ("lower", Char.isLower), ("print", fun c => c = ' ' || isGraphic c),
    ("punct", fun c => isGraphic c && !c.isAlphanum),
    ("space", fun c => c = ' ' || ('\t' ≤ c && c ≤ '\r')), ("upper", Char.isUpper),
    ("xdigit", fun c => c.isDigit || ('a' ≤ c && c ≤ 'f') || ('A' ≤ c && c ≤ 'F'))]

/-- The class whose name stands between colons at the front of a word, behind an opening bracket
    and in front of a closing one; with it, the number of these characters. -/
def class? (word : List Mark) : Option (Member × Nat) :=
  classes.findSome? fun (name, holds) =>
    let expected := (":" ++ name ++ ":]").toList
    if (plain expected).isPrefixOf word then some (.ofClass holds, expected.length) else none

/-- The members of a set up to its closing bracket, which does not count as one where it is the
    `first`; and what follows the bracket. -/
def ofWord? (first : Bool) (word : List Mark) : Option (List Member × List Mark) :=
  match word with
  | [] => none
  | m :: rest =>
    if !first && m.isSign ']' then some ([], rest)
    else match (if m.isSign '[' then class? rest else none) with
      | some (member, length) => followed member (ofWord? false (rest.drop length))
      | none =>
        match rest with
        | dash :: high :: after =>
          if dash.isSign '-' && !high.isSign ']' then
            followed (.range m.char high.char) (ofWord? false after)
          else followed (.range m.char m.char) (ofWord? false (dash :: high :: after))
        | rest => followed (.range m.char m.char) (ofWord? false rest)
termination_by word.length
decreasing_by all_goals simp; try omega
where
  /-- A member in front of others. -/
  followed (member : Member) (others : Option (List Member × List Mark)) :
      Option (List Member × List Mark) :=
    others.map fun (members, rest) => (member :: members, rest)

/-- What follows a set is shorter than the set with it. -/
theorem length_of_ofWord? {first : Bool} {word rest : List Mark} {members : List Member}
    (h : ofWord? first word = some (members, rest)) : rest.length < word.length := by
  fun_induction ofWord? first word generalizing members rest with
  | case1 => simp at h
  | case2 => simp_all
  | case3 first m word hm member length hc ih =>
    simp only [ofWord?.followed, Option.map_eq_some_iff, Prod.exists, Prod.mk.injEq] at h
    obtain ⟨others, final, hr, -, rfl⟩ := h
    have := ih hr
    simp at this ⊢
    omega
  | case4 first m hm dash high after _ hd ih | case5 first m hm dash high after _ hd ih
  | case6 first m word hm _ _ ih =>
    simp only [ofWord?.followed, Option.map_eq_some_iff, Prod.exists, Prod.mk.injEq] at h
    obtain ⟨others, final, hr, -, rfl⟩ := h
    have := ih hr
    simp at this ⊢
    omega

end Member

/-- A part of a pattern. -/
inductive Matcher
  /-- Any characters. -/
  | any
  /-- Any one character. -/
  | one
  /-- The given character. -/
  | exactly (c : Char)
  /-- One of the characters of a set, or, if negated, one that is not in it. -/
  | among (negated : Bool) (members : List Member)

namespace Matcher

/-- A word with the characters behind backslashes quoted instead. -/
def resolve : List Mark → List Mark
  | [] => []
  | m :: rest =>
    match m.isSign '\\', rest with
    | true, next :: rest => ⟨next.char, true⟩ :: resolve rest
    | _, rest => m :: resolve rest

/-- The set that starts behind an opening bracket, and what follows it. -/
def set? (word : List Mark) : Option (Matcher × List Mark) :=
  let negated := word.head?.any (·.isSign '!')
  (Member.ofWord? true (if negated then word.drop 1 else word)).map fun (members, rest) =>
    (.among negated members, rest)

theorem length_of_set? {word rest : List Mark} {set : Matcher} (h : set? word = some (set, rest)) :
    rest.length < word.length := by
  simp only [set?, Option.map_eq_some_iff, Prod.exists, Prod.mk.injEq] at h
  obtain ⟨members, final, hr, -, rfl⟩ := h
  have := Member.length_of_ofWord? hr
  split at this
  · simp at this
    omega
  · exact this

/-- The parts of a pattern without backslashes. -/
def ofResolved (word : List Mark) : List Matcher :=
  match word with
  | [] => []
  | m :: rest =>
    if m.isSign '*' then .any :: ofResolved rest
    else if m.isSign '?' then .one :: ofResolved rest
    else match _h : (if m.isSign '[' then set? rest else none) with
      | some (set, after) => set :: ofResolved after
      | none => .exactly m.char :: ofResolved rest
termination_by word.length
decreasing_by
  all_goals first
    | exact Nat.lt_succ_self _
    | split at _h
      · exact Nat.lt_succ_of_lt (length_of_set? _h)
      · cases _h

/-- The parts of a pattern. -/
def ofWord (word : List Mark) : List Matcher := ofResolved (resolve word)

/-- All ends of a text, the text itself first. -/
def ends : List Char → List (List Char)
  | [] => [[]]
  | c :: rest => (c :: rest) :: ends rest

/-- Whether a text has the form of a pattern. -/
def accepts : List Matcher → List Char → Bool
  | [], text => text.isEmpty
  | .any :: rest, text => (ends text).any (accepts rest)
  | _ :: _, [] => false
  | .one :: rest, _ :: text => accepts rest text
  | .exactly expected :: rest, c :: text => c = expected && accepts rest text
  | .among negated members :: rest, c :: text =>
    (members.any (·.holds c)) != negated && accepts rest text

end Matcher

/-- Whether a word has a character that makes it more than its text: an asterisk, a question mark,
    or a bracket that is closed again. -/
def isPattern (word : List Mark) : Bool :=
  match word with
  | [] => false
  | m :: rest =>
    m.isSign '*' || m.isSign '?' ||
      (m.isSign '[' && ((if rest.head?.any (·.isSign '!') then rest.drop 2 else rest.drop 1).any
        (·.isSign ']'))) ||
      isPattern rest

end PrecompiledHeaders.Shell
