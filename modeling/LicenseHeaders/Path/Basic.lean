import LicenseHeaders.Text.Basic

/-!
Paths in normal form. Repeated slashes collapse and parts that are `.` vanish, while `..` stays,
since it can only be resolved against a directory tree. A path starts where relative paths start,
at the root, or at the root written with exactly two slashes. The path without parts that starts
nowhere else is written `.`.
-/
namespace LicenseHeaders

inductive Anchor where
  | base
  | root
  | doubleRoot
deriving DecidableEq, Repr

structure Path where
  anchor : Anchor
  parts : List Text
deriving DecidableEq, Repr

namespace Path

def Anchor.text : Anchor → Text
  | .base => []
  | .root => ['/']
  | .doubleRoot => ['/', '/']

def anchorOf : Text → Anchor
  | '/' :: '/' :: '/' :: _ => .root
  | '/' :: '/' :: _ => .doubleRoot
  | '/' :: _ => .root
  | _ => .base

def partsOf (t : Text) : List Text :=
  (t.splitOn '/').filter fun part => part ≠ [] ∧ part ≠ ['.']

def ofText (t : Text) : Path := ⟨anchorOf t, partsOf t⟩

def toText (p : Path) : Text :=
  if p.anchor = .base ∧ p.parts = [] then ['.']
  else Anchor.text p.anchor ++ ['/'].intercalate p.parts

def child (p : Path) (name : Text) : Path := { p with parts := p.parts ++ [name] }

/-- The path beside this one whose last part is longer by `ending`; a path without parts has none. -/
def beside? (p : Path) (ending : Text) : Option Path :=
  p.parts.getLast?.map fun name => { p with parts := p.parts.dropLast ++ [name ++ ending] }

/-- A name written behind the text of a directory, without normalising. -/
def behind (directory name : Text) : Text :=
  if directory.getLast? = some '/' then directory ++ name else directory ++ '/' :: name

example : (ofText "a//./b/").toText = "a/b" := by decide
example : (ofText "///a").toText = "/a" ∧ (ofText "//a").toText = "//a" := by decide
example : (ofText "").toText = "." ∧ (ofText "./..").toText = ".." := by decide

end Path

end LicenseHeaders
