import PrecompiledHeaders.Datum.Basic

/-!
# Tables of TOML

The tables of a document are put together from key and value pairs, whose keys may lead through
several tables, and from headers, which open a table for the pairs that follow. A table may be
said only once, and how a table came to be decides what may be added to it (`Origin`):

* `insert?` adds a pair. It makes the tables that its key leads through, but adds to a table only
  if a key made it;
* `openAt?` finds the place of a header's table, making the tables on the way;
* `addSection?` opens the table of a header and fills it.
-/

namespace PrecompiledHeaders.Toml

/-- How a table came to be. -/
inductive Origin
  /-- It has a header of its own. -/
  | header
  /-- A header of a table inside it led through it. -/
  | headerPath
  /-- A key led through it. -/
  | key
deriving DecidableEq, Repr

/-- What stands under a key. -/
inductive Item
  /-- A value. -/
  | value (datum : Datum)
  /-- A table. -/
  | table (origin : Origin) (entries : List (String × Item))
  /-- Tables that headers of one name opened: the latest one, and those before it, the last ones
      first. -/
  | tables (latest : List (String × Item)) (earlier : List (List (String × Item)))

/-- The keys of a table with what stands under them. -/
abbrev Entries := List (String × Item)

/-- Key and value pairs, each key with all of its parts. -/
abbrev Pairs := List (List String × Datum)

/-- Puts something under a key, in place of what stood there. -/
def Entries.set (entries : Entries) (key : String) (item : Item) : Entries :=
  (key, item) :: entries.filter (·.1 ≠ key)

/-- Adds a value under a key. Nothing may stand there yet, and the tables the key leads through
    must not have headers of their own; the last of them must be there by a key. -/
def insert? (datum : Datum) : (key : List String) → Entries → Option Entries
  | [], _ => none
  | [name], entries =>
    match entries.lookup name with
    | none => some (entries.set name (.value datum))
    | some _ => none
  | name :: rest, entries =>
    match entries.lookup name with
    | none => do return entries.set name (.table .key (← insert? datum rest []))
    | some (.value _) => none
    | some (.table origin inner) =>
      if origin = .header ∨ (rest.length = 1 ∧ origin ≠ .key) then none
      else do return entries.set name (.table origin (← insert? datum rest inner))
    | some (.tables latest earlier) =>
      if rest.length = 1 then none
      else do return entries.set name (.tables (← insert? datum rest latest) earlier)

/-- Adds pairs in order. -/
def insertAll? (pairs : Pairs) (entries : Entries) : Option Entries :=
  pairs.foldlM (fun entries (key, datum) => insert? datum key entries) entries

/-- Changes the table that holds the last name of a header. -/
def openAt? (change : String → Entries → Option Entries) :
    (path : List String) → Entries → Option Entries
  | [], _ => none
  | [name], entries => change name entries
  | name :: rest, entries =>
    match entries.lookup name with
    | none => do return entries.set name (.table .headerPath (← openAt? change rest []))
    | some (.value _) => none
    | some (.table origin inner) => do
      return entries.set name (.table origin (← openAt? change rest inner))
    | some (.tables latest earlier) => do
      return entries.set name (.tables (← openAt? change rest latest) earlier)

/-- A header that opens a table. -/
structure Header where
  /-- The names that lead to the table. -/
  path : List String
  /-- Whether the table is one of several of the same name. -/
  repeated : Bool

/-- Opens the table of a header and adds pairs to it. Of tables that may not be repeated only one
    that a header led through may be there already. -/
def addSection? (entries : Entries) (header : Header) (pairs : Pairs) : Option Entries :=
  openAt? (fun name entries =>
    match header.repeated, entries.lookup name with
    | false, none => do return entries.set name (.table .header (← insertAll? pairs []))
    | false, some (.table .headerPath inner) => do
      return entries.set name (.table .header (← insertAll? pairs inner))
    | true, none => do return entries.set name (.tables (← insertAll? pairs []) [])
    | true, some (.tables latest earlier) => do
      return entries.set name (.tables (← insertAll? pairs []) (latest :: earlier))
    | _, _ => none) header.path entries

/-! ### As data -/

mutual

/-- What stands under a key, as a datum. -/
def Item.toDatum : Item → Datum
  | .value datum => datum
  | .table _ entries => .record (fieldsOfEntries entries)
  | .tables latest earlier =>
    .list (.record (fieldsOfEntries latest) :: recordsOfTables earlier).reverse

/-- The fields of a table. -/
def fieldsOfEntries : Entries → List (Option String × Datum)
  | [] => []
  | (key, item) :: rest => (some key, item.toDatum) :: fieldsOfEntries rest

/-- The records of several tables. -/
def recordsOfTables : List Entries → List Datum
  | [] => []
  | entries :: rest => .record (fieldsOfEntries entries) :: recordsOfTables rest

end

end PrecompiledHeaders.Toml
