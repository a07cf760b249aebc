import PrecompiledHeaders.FileTree.Change
import PrecompiledHeaders.Snapshot.Codec

/-!
# Snapshots

A snapshot is what the scanner emits for a precompiled header: the headers in it, each with the
hash of its contents. A snapshot file is a short header with a magic word, the version of the
format and a checksum, behind the length of that header; and the entries (`Snapshot.encode?`,
`Snapshot.decode`). Paths are written as text, so a path that is none cannot be written.
-/

namespace PrecompiledHeaders

/-- A header within a precompiled header. -/
structure SnapshotEntry where
  /-- The path of the header. -/
  path : Path
  /-- The hash of its contents. -/
  hash : ContentHash
deriving DecidableEq, Repr, Inhabited

/-- The headers within a precompiled header, in order. -/
structure Snapshot where
  /-- The headers. -/
  entries : List SnapshotEntry
deriving DecidableEq, Repr, Inhabited

/-- Why a file is no snapshot, or a snapshot has no file. -/
inductive SnapshotError
  /-- The file cannot be read. -/
  | unreadable (reason : FileError)
  /-- The file ends within its header. -/
  | truncated
  /-- The header or the entries are no values of their kinds, or a path is no text. -/
  | codec
  /-- The header does not start with the magic word. -/
  | badMagic
  /-- The format has another version. -/
  | version (found : Nat)
  /-- The checksum is not the hash of the entries. -/
  | checksum
deriving DecidableEq, Repr

namespace Snapshot

/-- The word that headers start with. -/
def magic : Bytes := Utf8.encode "PCHS".toList

/-- The version of the format. -/
def version : Nat := 1

/-- The paths of the headers. -/
def paths (snapshot : Snapshot) : List Path := snapshot.entries.map SnapshotEntry.path

/-! ### Writing -/

/-- The bytes of an entry; none if its path is no text. -/
def encodeEntry? (entry : SnapshotEntry) : Option Bytes := do
  if entry.path.text?.isSome then
    return (← Codec.text? entry.path.bytes) ++ Codec.number entry.hash.value.toNat
  else none

/-- The bytes of the entries. -/
def payload? (snapshot : Snapshot) : Option Bytes := do
  let entries ← snapshot.entries.mapM encodeEntry?
  return (← Codec.length? entries.length) ++ entries.flatten

/-- The header of a file with the given entries. -/
def header (payload : Bytes) : Bytes :=
  magic ++ Codec.number version ++ Codec.number (ContentHash.ofBytes payload).value.toNat

/-- The bytes of a file with the given entries. -/
def file (payload : Bytes) : Bytes :=
  Codec.littleEndian 4 (header payload).length ++ header payload ++ payload

/-- The bytes of a snapshot file. -/
def encode? (snapshot : Snapshot) : Option Bytes :=
  snapshot.payload?.map file

/-! ### Reading -/

open Codec in
/-- Takes a header: the magic word, the version and the checksum. -/
def headerDecoder : Decoder (Bytes × Nat × Nat) := do
  let magic ← bytes 4
  let version ← numberUpTo .four
  let checksum ← numberUpTo .sixteen
  return (magic, version, checksum)

open Codec in
/-- Takes an entry. -/
def entryDecoder : Decoder SnapshotEntry := do
  let path ← textBytes
  let hash ← numberUpTo .sixteen
  return ⟨⟨path⟩, ⟨BitVec.ofNat 128 hash⟩⟩

open Codec in
/-- Takes the entries. -/
def payloadDecoder : Decoder Snapshot := do
  return ⟨← items entryDecoder (← numberUpTo .eight)⟩

/-- Cuts a file into the header and what is behind it. -/
def cut? (raw : Bytes) : Option (Bytes × Bytes) := do
  let (length, rest) ← Codec.fixed 4 raw
  Codec.bytes length rest

/-- The snapshot that a file holds. Bytes behind what is read, in the header as well as behind
    the entries, say nothing. -/
def decode (raw : Bytes) : Except SnapshotError Snapshot :=
  match cut? raw with
  | none => .error .truncated
  | some (header, payload) =>
    match headerDecoder header with
    | none => .error .codec
    | some ((magic, version, checksum), _) =>
      if magic ≠ Snapshot.magic then .error .badMagic
      else if version ≠ Snapshot.version then .error (.version version)
      else if (ContentHash.ofBytes payload).value.toNat ≠ checksum then .error .checksum
      else match payloadDecoder payload with
        | none => .error .codec
        | some (snapshot, _) => .ok snapshot

/-! ### Files -/

/-- The entries whose header does not have the recorded contents any more. -/
def stale (tree : FileTree) (snapshot : Snapshot) : List SnapshotEntry :=
  snapshot.entries.filter fun entry =>
    match tree.hash entry.path with
    | .ok hash => hash ≠ entry.hash
    | .error _ => true

/-- The snapshot in the file at a path. -/
def read (tree : FileTree) (p : Path) : Except SnapshotError Snapshot :=
  match tree.read p with
  | .error e => .error (.unreadable e)
  | .ok raw => decode raw

end Snapshot

/-- The text of the error. What exactly is wrong with a value is not told. -/
def SnapshotError.message : SnapshotError → String
  | .unreadable reason => reason.message
  | .truncated => "truncated header"
  | .codec => "codec"
  | .badMagic => "bad magic"
  | .version found => s!"format version {found} (expected {Snapshot.version})"
  | .checksum => "checksum mismatch"

end PrecompiledHeaders
