import PrecompiledHeaders.FileTree.Basic

/-!
# What is there from the start

The part of a file tree that is there before anybody has put files into it: the directories that
every system has, the device that holds nothing, and the programs that can be run. What the files
of programs hold is nobody's business; which program is meant is known by the location.
-/

namespace PrecompiledHeaders

/-- The programs that can be run. -/
inductive Program
  /-- The shell. -/
  | shell
  /-- Writes files one after the other. -/
  | concatenate
  /-- Writes its arguments. -/
  | echo
  /-- Writes the path of the current directory. -/
  | whereabouts
  /-- Succeeds. -/
  | succeed
  /-- Fails. -/
  | fail
deriving DecidableEq, Repr

namespace Program

/-- All programs. -/
def all : List Program := [.shell, .concatenate, .echo, .whereabouts, .succeed, .fail]

/-- The name of the program's file. -/
def fileName : Program → String
  | .shell => "dash"
  | .concatenate => "cat"
  | .echo => "echo"
  | .whereabouts => "pwd"
  | .succeed => "true"
  | .fail => "false"

end Program

namespace FileTree

/-- The bytes of a name. -/
def nameBytes (name : String) : Bytes := Utf8.encode name.toList

/-- The location that names lead to. -/
def locationOf (names : List String) : Location := (names.map nameBytes).reverse

/-- The directory of the programs. -/
def programDirectory : Location := locationOf ["usr", "bin"]

/-- The location of a program. -/
def programLocation (program : Program) : Location :=
  nameBytes program.fileName :: programDirectory

/-- The program at a location, if there is one. -/
def programAt? (location : Location) : Option Program :=
  Program.all.find? fun program => programLocation program = location

/-- What is there from the start, with the given current directory. -/
def system (here : Location) : FileTree where
  entries :=
    ["bin", "boot", "dev", "etc", "home", "mnt", "opt", "proc", "root", "run", "srv", "sys", "tmp",
        "usr", "var"].map (fun name =>
      (locationOf [name],
        if name = "bin" then .link (.ofString "usr/bin") else .directory)) ++
    (locationOf ["dev", "null"], .special .null) ::
    (programDirectory, .directory) ::
    (nameBytes "sh" :: programDirectory, .link (.ofString "dash")) ::
    Program.all.map fun program => (programLocation program, .file [])
  here

end FileTree

end PrecompiledHeaders
