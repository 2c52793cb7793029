import LicenseHeaders.Text.Basic

/-!
Control sequences of a terminal: an escape character and an opening bracket, then digits, semicolons
and question marks, and one letter. Output that does not go to a terminal is written without them.
-/
namespace LicenseHeaders.ControlSequence

def isParameter (c : Char) : Bool := c.isDigit || c = ';' || c = '?'

def length? : Text → Option Nat
  | '\x1b' :: '[' :: rest =>
    match rest.dropWhile isParameter with
    | c :: _ => if c.isAlpha then some ((rest.takeWhile isParameter).length + 3) else none
    | [] => none
  | _ => none

/-- Leaves out all sequences. `skip` counts characters of one already found. -/
def withoutFrom (skip : Nat) : Text → Text
  | [] => []
  | c :: rest =>
    match skip with
    | skip + 1 => withoutFrom skip rest
    | 0 =>
      match length? (c :: rest) with
      | some length => withoutFrom (length - 1) rest
      | none => c :: withoutFrom 0 rest

def without (t : Text) : Text := withoutFrom 0 t

example : without "a\x1b[0;31mb\x1b[x\x1b" = "ab\x1b" := by decide

end LicenseHeaders.ControlSequence
