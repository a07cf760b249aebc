import PrecompiledHeaders.Path.Basic

/-!
# Job requests

A request asks for a job on one of the two units of a document. Requests are numbered in the
order in which they are issued, and the record of issued requests knows the newest number for
each unit of each document: a request with a smaller one is *superseded*.
-/

namespace PrecompiledHeaders

/-- What a request asks for. -/
inductive RequestKind
  /-- To reparse a unit. -/
  | reparse
  /-- To reparse the supportive unit. -/
  | supportive
deriving DecidableEq, Repr, Inhabited

/-- The word for the kind. -/
def RequestKind.label : RequestKind → String
  | .reparse => "Reparse"
  | .supportive => "ReparseSupportive"

/-- The two units of a document. -/
inductive UnitKind
  /-- The unit whose results are shown. -/
  | primary
  /-- The unit in the background. -/
  | supportive
deriving DecidableEq, Repr, Inhabited

/-- The word for the unit. -/
def UnitKind.label : UnitKind → String
  | .primary => "Primary"
  | .supportive => "Supportive"

/-- A unit with its frontend, as the log shows it. -/
def UnitKind.summary (unit : UnitKind) (frontend : String) : String :=
  "TranslationUnit \x7b kind: " ++ unit.label ++ ", frontend: \"" ++ frontend ++ "\" \x7d"

/-- A request for a job. -/
structure Request where
  /-- What it asks for. -/
  kind : RequestKind
  /-- The file of the document. -/
  file : Path
  /-- The unit it is about. -/
  unit : UnitKind
  /-- Its number; zero as long as it is not issued. -/
  issuedAt : Nat
deriving DecidableEq, Repr, Inhabited

namespace Request

/-- A request that is not issued yet. -/
def new (kind : RequestKind) (file : Path) (unit : UnitKind) : Request := ⟨kind, file, unit, 0⟩

/-- The unit that requests of a kind are about if nothing else is said. -/
def usualUnit : RequestKind → UnitKind
  | .reparse => .primary
  | .supportive => .supportive

end Request

/-- The newest number for a unit of a document. -/
structure Issued where
  /-- The file of the document. -/
  file : Path
  /-- The unit. -/
  unit : UnitKind
  /-- The number. -/
  latest : Nat
deriving DecidableEq, Repr

/-- The newest numbers. -/
structure IssuedRequests where
  /-- For each unit of each document of which something is known, its newest number. -/
  entries : List Issued
deriving DecidableEq, Repr, Inhabited

namespace IssuedRequests

/-- The record of nothing. -/
def empty : IssuedRequests := ⟨[]⟩

/-- Whether an entry is about a unit of a document. -/
def isAbout (file : Path) (unit : UnitKind) (entry : Issued) : Bool :=
  Path.Same file entry.file ∧ unit = entry.unit

/-- The newest number for a unit of a document. -/
def latest? (issued : IssuedRequests) (file : Path) (unit : UnitKind) : Option Nat :=
  (issued.entries.find? (isAbout file unit)).map Issued.latest

/-- Notes a number for a unit of a document. The newest number stays the greatest one. -/
def raise (issued : IssuedRequests) (file : Path) (unit : UnitKind) (number : Nat) :
    IssuedRequests :=
  match issued.latest? file unit with
  | none => ⟨issued.entries ++ [⟨file, unit, number⟩]⟩
  | some _ =>
    ⟨issued.entries.map fun entry =>
      if isAbout file unit entry then { entry with latest := max entry.latest number }
      else entry⟩

/-- Notes a request. -/
def record (issued : IssuedRequests) (request : Request) : IssuedRequests :=
  issued.raise request.file request.unit request.issuedAt

/-- Whether there is a newer request for the same unit. -/
def isSuperseded (issued : IssuedRequests) (request : Request) : Bool :=
  (issued.latest? request.file request.unit).any (request.issuedAt < ·)

/-- Supersedes all requests for a document with smaller numbers. What is noted stays noted when
    the document is closed, so that older requests stay superseded when it is opened again. -/
def retire (issued : IssuedRequests) (file : Path) (number : Nat) : IssuedRequests :=
  (issued.raise file .primary number).raise file .supportive number

end IssuedRequests

end PrecompiledHeaders
