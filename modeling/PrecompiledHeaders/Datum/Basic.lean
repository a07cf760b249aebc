/-!
# Data

A datum is what both notations for data, JSON and TOML, are read into: texts, numbers, lists and
records. Records keep their fields in written order, with repetitions, as it is for whoever
takes a record apart to refuse them.

The fields of a known kind of record are taken out by `Datum.fields?`. A record may have other
fields, which are skipped, and may also be written as a list, in the order of the known fields.
-/

namespace PrecompiledHeaders

/-- A value that data notations write. -/
inductive Datum
  /-- Nothing. -/
  | null
  /-- A truth value. -/
  | bool (value : Bool)
  /-- A whole number. -/
  | integer (value : Int)
  /-- A number written with a fraction or an exponent, which nothing here looks at. -/
  | decimal
  /-- A text; none if an escape in it names half a character, so that it can only be skipped. -/
  | text (value? : Option String)
  /-- A list. -/
  | list (items : List Datum)
  /-- A record, each field under the text of its name. -/
  | record (fields : List (Option String × Datum))
deriving Inhabited

namespace Datum

/-- A text. -/
def ofString (s : String) : Datum := .text (some s)

/-- A record with the given fields. -/
def ofFields (fields : List (String × Datum)) : Datum :=
  .record (fields.map fun (name, value) => (some name, value))

/-- The text, if the datum is one. -/
def string? : Datum → Option String
  | .text value? => value?
  | _ => none

/-- The texts of a list of texts. -/
def strings? : Datum → Option (List String)
  | .list items => items.mapM string?
  | _ => none

/-- The word of a choice without anything to say beyond it: a text, or a record of nothing under
    the word. -/
def word? : Datum → Option String
  | .text value? => value?
  | .record [(name?, .null)] => name?
  | _ => none

/-- The number, if the datum is a whole one that is not negative. -/
def natural? : Datum → Option Nat
  | .integer (.ofNat n) => some n
  | _ => none

/-- The values of some fields of a record: nothing for a field that is not there. -/
abbrev Fields := String → Option Datum

/-- The fields of a record: every name is a text, and no known name stands twice. -/
def recordFields? (known : List String) (fields : List (Option String × Datum)) :
    Option Fields := do
  let named ← fields.mapM fun (name?, value) => name?.map (·, value)
  let names := (named.map Prod.fst).filter (· ∈ known)
  if names.eraseDups.length < names.length then none
  else some fun name => named.lookup name

/-- The known fields of a datum that is a record, or a list of values in the order of the known
    fields. A list with more values than there are fields is refused if it has to be `exact`. -/
def fields? (exact : Bool) (known : List String) : Datum → Option Fields
  | .record fields => recordFields? known fields
  | .list items =>
    if exact ∧ known.length < items.length then none
    else some fun name => (known.zip items).lookup name
  | _ => none

/-- The value of a field that has to be there, taken apart by `read?`. -/
def Fields.required? {α : Type} (fields : Fields) (name : String) (read? : Datum → Option α) :
    Option α := do
  read? (← fields name)

/-- The value of a field, taken apart by `read?`, or a default if the field is not there. -/
def Fields.withDefault? {α : Type} (fields : Fields) (name : String) (default : α)
    (read? : Datum → Option α) : Option α :=
  match fields name with
  | none => some default
  | some value => read? value

end Datum

end PrecompiledHeaders
