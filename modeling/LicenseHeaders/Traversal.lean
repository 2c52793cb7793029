import LicenseHeaders.Journal
import LicenseHeaders.Path.Relative

/-!
Walking a directory tree. A directory is listed when it is entered, and its entries are visited in
name order, each before the next is looked at; what is done to one file may change what a later
listing shows. Links to directories are not entered, and a pruned directory is not even listed.

The recursion descends one directory at a time, and each directory below the root is another one
in the store, so their number bounds the depth.
-/
namespace LicenseHeaders.Traversal

variable {α : Type}

/-- Whether a link leads to a file. One that leads nowhere does not; one that cannot be followed
for another reason is a fault. -/
def leadsToFile (directory : Path) (name : Name) : Job Bool := do
  match (← Job.store).kindAt (directory.child name.text) with
  | .ok kind => return kind = .file
  | .error .notFound => return false
  | .error cause => throw (.system (.ofCause cause (Path.behind directory.toText name.text)))

def visitEntry (prune : Text → Bool) (act : Path → Text → Job α)
    (enter : Path → Text → Job (List α)) (directory : Path) (rel : Text) (entry : Entry) :
    Job (List α) := do
  let path := directory.child entry.name.text
  let inner := Relative.child rel entry.name.text
  match entry.kind with
  | .directory =>
    if prune inner then
      Job.note (.directorySkipped inner)
      return []
    else enter path inner
  | .file => return [← act path inner]
  | .link => if ← leadsToFile directory entry.name then return [← act path inner] else return []

def visitEntries (prune : Text → Bool) (act : Path → Text → Job α)
    (enter : Path → Text → Job (List α)) (directory : Path) (rel : Text) :
    List Entry → Job (List α)
  | [] => return []
  | entry :: rest => do
    let now ← visitEntry prune act enter directory rel entry
    let later ← visitEntries prune act enter directory rel rest
    return now ++ later

def visit (prune : Text → Bool) (act : Path → Text → Job α) :
    (depth : Nat) → Path → Text → Job (List α)
  | 0, _, _ => throw .tooDeep
  | depth + 1, directory, rel => do
    let entries ← Job.list directory
    visitEntries prune act (visit prune act depth) directory rel entries

/-- Acts on every file below the root that is not in a pruned directory, and answers what came of
each. -/
def overFiles (prune : Text → Bool) (act : Path → Text → Job α) (root : Path) :
    Job (List α) := do
  visit prune act ((← Job.store).directoryCount + 1) root []

def files (prune : Text → Bool) (root : Path) : Job (List (Path × Text)) :=
  overFiles prune (fun path rel => return (path, rel)) root

end LicenseHeaders.Traversal
