import LicenseHeaders.Text.Utf8

/-!
The text of a source file. A source file may hold any bytes, so its text is a list of units: a
scalar value where the bytes are UTF-8, and one raw unit for each byte that is not. Writing the
units back gives the bytes again, whatever they were.
-/
namespace LicenseHeaders

inductive SourceUnit where
  | scalar (c : Char)
  | raw (b : UInt8)
deriving DecidableEq, Repr

abbrev SourceText := List SourceUnit

namespace SourceText

def ofText (t : Text) : SourceText := t.map .scalar

def ofBytesFrom (skip : Nat) : Bytes → SourceText
  | [] => []
  | first :: rest =>
    match skip with
    | skip + 1 => ofBytesFrom skip rest
    | 0 =>
      match Utf8.read first rest with
      | .scalar c width => .scalar c :: ofBytesFrom (width - 1) rest
      | .malformed _ _ => .raw first :: ofBytesFrom 0 rest

def ofBytes (bytes : Bytes) : SourceText := ofBytesFrom 0 bytes

def unitBytes : SourceUnit → Bytes
  | .scalar c => Utf8.encodeChar c
  | .raw b => [b]

def toBytes (t : SourceText) : Bytes := t.flatMap unitBytes

theorem toBytes_append (s t : SourceText) : toBytes (s ++ t) = toBytes s ++ toBytes t := by
  simp [toBytes]

theorem toBytes_ofText (t : Text) : toBytes (ofText t) = Utf8.encode t := by
  induction t with
  | nil => rfl
  | cons c rest ih => simp_all [toBytes, ofText, Utf8.encode, unitBytes]

end SourceText

end LicenseHeaders
