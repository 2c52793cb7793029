import LicenseHeaders.Text.Basic

/-!
Relative names: the text that places a file below the scanned directory, with `/` between its
parts. The rules of a run look at nothing else. The extension starts at the last dot of the last
part, but leading dots of a part never start one.

A user writes beginnings of relative names to exclude directories or to exempt files. A beginning
matches as text, not part by part. It is put into a normal form first: no `./` in front, no slash at
the end, and `.` alone is the empty beginning, which matches everything.
-/
namespace LicenseHeaders

namespace Relative

def fromLast (mark : Char) : Text → Option Text
  | [] => none
  | c :: rest =>
    match fromLast mark rest with
    | some found => some found
    | none => if c = mark then some (c :: rest) else none

def child (directory name : Text) : Text :=
  if directory = [] then name else directory ++ '/' :: name

def lastPart (rel : Text) : Text :=
  match fromLast '/' rel with
  | some found => found.drop 1
  | none => rel

def extension (rel : Text) : Text :=
  (fromLast '.' ((lastPart rel).dropWhile (· = '.'))).getD []

/-- All before the last part, without the slashes at its end unless it is nothing but slashes. -/
def directory (rel : Text) : Text :=
  let before := rel.take (rel.length - (lastPart rel).length)
  if before.all (· = '/') then before else Text.dropEndWhile (· = '/') before

example : extension "a/.x.rb" = ".rb" ∧ extension "..rb" = "" ∧ extension "b.c/d" = "" := by decide
example : directory "a/b/c.c" = "a/b" ∧ directory "c.c" = "" ∧ directory "//c" = "//" := by decide

end Relative

namespace Beginning

def dropHere : Text → Text
  | '.' :: '/' :: rest => dropHere rest
  | t => t

def normal (entry : Text) : Text :=
  let t := Text.dropEndWhile (· = '/') (dropHere entry)
  if t = ['.'] then [] else t

/-- The texts that `normal` can answer. -/
def IsNormal (t : Text) : Prop :=
  ¬ ['.', '/'] <+: t ∧ t.getLast? ≠ some '/' ∧ t ≠ ['.']

def matchesAny (beginnings : List Text) (rel : Text) : Bool :=
  beginnings.any fun start => start.isPrefixOf rel

example : normal "././a/b//" = "a/b" ∧ normal "./" = "" ∧ normal "//" = "" := by decide

end Beginning

end LicenseHeaders
