import PrecompiledHeaders.Datum.Toml.Scalar
import PrecompiledHeaders.Datum.Toml.Table
import PrecompiledHeaders.Text.Utf8

/-!
# TOML documents

A document is a sequence of lines, each with a key and value pair, with a header, or with
nothing (`line`). Headers cut it into sections (`sections`), from which its tables are put
together (`Toml.parse?`).
-/

namespace PrecompiledHeaders.Toml

open Reader

/-- A value. Arrays may go over several lines and may have a comma behind their last item, inline
    tables must not. `room` is how deep they may still be nested. -/
def value : (room : Nat) → Reader Datum
  | 0 => scalar
  | room + 1 => do
    match ← peek with
    | some '[' =>
      let _ ← next
      let items ← separated (do blankLines; let item ← value room; blankLines; return item)
        (exactly ',') <|> return []
      if items ≠ [] then
        exactly ',' <|> return
      blankLines
      exactly ']'
      return .list items
    | some '\x7b' =>
      let _ ← next
      let pairs ← separated
        (do let k ← key; exactly '='; blanks; let v ← value room; blanks; return (k, v))
        (exactly ',') <|> return []
      blanks
      exactly '\x7d'
      match insertAll? pairs [] with
      | some entries => return .record (fieldsOfEntries entries)
      | none => failure
    | _ => scalar

/-- What a line of a document says. -/
inductive Line
  /-- Nothing. -/
  | nothing
  /-- A key and a value. -/
  | pair (key : List String) (datum : Datum)
  /-- A header. -/
  | header (header : Header)

/-- A header with its brackets. -/
def header : Reader Header :=
  (do
    word ['[', '[']
    let path ← key
    word [']', ']']
    return ⟨path, true⟩) <|> do
    exactly '['
    let path ← key
    exactly ']'
    return ⟨path, false⟩

/-- A line. -/
def line : Reader Line := do
  match ← peek with
  | some '#' => comment; lineEnd; return .nothing
  | some '\n' | some '\r' => newline; return .nothing
  | some '[' => let h ← header; lineEnd; return .header h
  | _ =>
    let k ← key
    exactly '='
    blanks
    let v ← value maximalDepth
    lineEnd
    return .pair k v

/-- The lines of a document. There may be a byte order mark in front. -/
def document : Reader (List Line) := do
  exactly '\uFEFF' <|> return
  blanks
  many (do let l ← line; blanks; return l)

/-- The pairs in front of the first header, and the sections: each header with the pairs that
    follow it. -/
def sections : List Line → Pairs × List (Header × Pairs)
  | [] => ([], [])
  | .nothing :: rest => sections rest
  | .pair key datum :: rest =>
    let (pairs, others) := sections rest
    ((key, datum) :: pairs, others)
  | .header header :: rest =>
    let (pairs, others) := sections rest
    ([], (header, pairs) :: others)

/-- The datum that a document writes: a record of its keys. -/
def parse? (text : List Char) : Option Datum := do
  let lines ← Reader.parse? (fun _ => document) text
  let (pairs, others) := sections lines
  let root ← insertAll? pairs []
  let root ← others.foldlM (fun root (header, pairs) => addSection? root header pairs) root
  return .record (fieldsOfEntries root)

end PrecompiledHeaders.Toml
