import LicenseHeaders.Path.Basic
import LicenseHeaders.Store.Basic
import LicenseHeaders.Store.Cause

/-!
Following a path through a store. Each part is looked up in the directory reached so far; a link on
the way is replaced by the parts of its target. At most forty links are followed. A path that is
followed in order to create a file may end at a location where nothing is, if a name leads there
and its directory exists; any other path has to end at a node.
-/
namespace LicenseHeaders

inductive Step where
  | stay
  | up
  | into (part : Text)
deriving DecidableEq, Repr

def Step.ofPart (part : Text) : Step :=
  if part = [] ∨ part = ['.'] then .stay else if part = ['.', '.'] then .up else .into part

/-- How a path is to be followed. `closed` says that the text ended in a slash, so that the path
has to lead to a directory. -/
structure Route where
  absolute : Bool
  steps : List Step
  closed : Bool
deriving DecidableEq, Repr

namespace Route

def ofText (t : Text) : Route where
  absolute := t.head? = some '/'
  steps := ((t.splitOn '/').filter (· ≠ [])).map Step.ofPart
  closed := t.getLast? = some '/'

def ofPath (p : Path) : Route where
  absolute := p.anchor ≠ .base
  steps := p.parts.map Step.ofPart
  closed := false

def start (r : Route) (base : Location) : Location := if r.absolute then [] else base

/-- The steps of a route. A closed route takes one more step in place, which only a directory
allows; where it would have to create its last part, it stays in place instead. -/
def stepsTo (r : Route) (creating : Bool) : List Step :=
  if !r.closed then r.steps
  else if creating then r.steps.dropLast ++ [.stay]
  else r.steps ++ [.stay]

end Route

namespace Store

def linkLimit : Nat := 40

def pathLimit : Nat := 4096

/-- Takes the steps one by one. `follow` is told the directory of a link, its target and the steps
that remain. -/
def take (s : Store) (creating : Bool)
    (follow : Location → Text → List Step → Except Cause Location) :
    Location → List Step → Except Cause Location
  | place, [] => .ok place
  | place, step :: rest =>
    if s.get? place ≠ some .directory then .error .notADirectory
    else match step with
      | .stay =>
        if creating ∧ rest = [] then .error .isADirectory
        else take s creating follow place rest
      | .up =>
        if creating ∧ rest = [] then .error .isADirectory
        else take s creating follow place.dropLast rest
      | .into part =>
        match Name.ofText? part with
        | none => .error .nameTooLong
        | some name =>
          match s.get? (place ++ [name]) with
          | none => if creating ∧ rest = [] then .ok (place ++ [name]) else .error .notFound
          | some (.link target) => follow place target rest
          | some _ => take s creating follow (place ++ [name]) rest

def travel (s : Store) (creating : Bool) : (links : Nat) → Location → List Step →
    Except Cause Location
  | 0 => s.take creating fun _ _ _ => .error .tooManyLinks
  | links + 1 => s.take creating fun place target rest =>
    let route := Route.ofText target
    travel s creating links (route.start place) (route.stepsTo (creating ∧ rest = []) ++ rest)

def follow (s : Store) (creating : Bool) (route : Route) : Except Cause Location :=
  s.travel creating linkLimit (route.start s.base) (route.stepsTo creating)

def refuseLong (t : Text) : Except Cause Unit :=
  if Utf8.size t < pathLimit then .ok () else .error .nameTooLong

def locate (s : Store) (p : Path) : Except Cause Location := do
  refuseLong p.toText
  s.follow false (.ofPath p)

/-- The same for a path as it was written, where the empty text names nothing. -/
def locateText (s : Store) (t : Text) : Except Cause Location := do
  if t = [] then throw .notFound
  refuseLong t
  s.follow false (.ofText t)

/-- Where a file is put that is written under a path: at the end of the links, if there are any. -/
def locateForWriting (s : Store) (p : Path) : Except Cause Location := do
  refuseLong p.toText
  s.follow true (.ofPath p)

def directoryOf (s : Store) (p : Path) : Except Cause Location := do
  refuseLong p.toText
  let directory ← s.follow false (.ofPath { p with parts := p.parts.dropLast })
  if s.get? directory = some .directory then pure directory else throw .notADirectory

/-- The name in which a path ends; it denotes no entry if it ends in `..` or has no parts. -/
def lastName (p : Path) : Except Cause Text :=
  match p.parts.getLast?.map Step.ofPart with
  | some (.into part) => .ok part
  | _ => .error .busy

/-- An entry of a directory, where a link is the entry itself and not what it leads to. -/
def entryAt (directory : Location) (part : Text) : Except Cause Location :=
  match Name.ofText? part with
  | some name => .ok (directory ++ [name])
  | none => .error .nameTooLong

end Store

end LicenseHeaders
