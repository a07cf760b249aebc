import PrecompiledHeaders.Hash.Xxh3
import PrecompiledHeaders.Text.Digits

/-!
# Content hashes

A content hash is the 128-bit XXH3 hash of some bytes. Snapshots record the hash of each header
they hold, so that a changed header shows, and generated file names carry half a hash of the
project part they belong to.
-/

namespace PrecompiledHeaders

/-- The hash of some bytes, as one number. -/
structure ContentHash where
  /-- The number. -/
  value : BitVec 128
deriving DecidableEq, Repr, Inhabited

namespace ContentHash

/-- The hash of some bytes. -/
def ofBytes (bytes : Bytes) : ContentHash :=
  let lanes := Xxh3.hash bytes
  ⟨lanes.high.toBitVec ++ lanes.low.toBitVec⟩

/-- The hash as 32 hexadecimal digits. -/
def hex (h : ContentHash) : String :=
  String.ofList (Digits.hexadecimal 32 h.value.toNat)

/-- The digits of the upper half of the hash. -/
def shortDigits (h : ContentHash) : List Char :=
  Digits.hexadecimal 16 (h.value.toNat >>> 64)

/-- The upper half of the hash as 16 hexadecimal digits. -/
def shortHex (h : ContentHash) : String :=
  String.ofList h.shortDigits

/-- The hash as the log shows it: its first eight digits. -/
def abbreviated (h : ContentHash) : String :=
  s!"ContentHash({String.ofList (h.shortDigits.take 8)}..)"

@[simp]
theorem length_shortDigits (h : ContentHash) : h.shortDigits.length = 16 :=
  Digits.length_hexadecimal ..

end ContentHash

end PrecompiledHeaders
