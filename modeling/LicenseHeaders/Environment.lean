import LicenseHeaders.Config
import LicenseHeaders.Journal

/-!
Where a configuration comes from: two templates, the variables of the environment, with their
defaults, and the options of a call. Excluded and exempt beginnings of the call are added to those
of the environment, which lists them with commas: blanks around an item do not belong to it, and an
item of nothing but blanks is no item. Templates are read strictly: one that is not UTF-8 is
refused, and nothing of one that is gets lost or changed.
-/
namespace LicenseHeaders

namespace CommaList

def items (t : Text) : List Text :=
  ((t.splitOn ',').map Text.trim).filter (· ≠ [])

example : items " a , ,b c,, " = (["a", "b c"] : List Text) := by decide

end CommaList

namespace Template

def decodeFor (p : Path) (contents : Bytes) : Except Fault Text :=
  match Utf8.decode contents with
  | .ok text => .ok text
  | .error malformed => .error (.template p (.undecodable malformed))

def read (store : Store) (p : Path) : Except Fault Text :=
  if '\x00' ∈ p.toText then .error .nullInPath
  else match store.read p with
    | .ok contents => decodeFor p contents
    | .error cause => .error (.template p (.unreadable (.ofCause cause p.toText)))

end Template

/-- A variable that is set to the empty text differs from one that is not set. -/
structure Environment where
  header : Option Text := none
  modeline : Option Text := none
  excluded : Option Text := none
  exempt : Option Text := none
deriving DecidableEq, Repr

namespace Environment

def headerFile (env : Environment) : Text := env.header.getD "license_header"

def modelineFile (env : Environment) : Text := env.modeline.getD []

def excludedBeginnings (env : Environment) : List Text :=
  CommaList.items (env.excluded.getD "_build_")

def exemptBeginnings (env : Environment) : List Text := CommaList.items (env.exempt.getD [])

end Environment

/-- What a call asks for. A missing file name means the one of the environment. -/
structure Request where
  root : Text := "."
  header : Option Text := none
  modeline : Option Text := none
  excluded : List Text := []
  exempt : List Text := []
  dryRun : Bool := false
deriving DecidableEq, Repr

namespace Request

def draft (r : Request) (env : Environment) (license modeline : Text) : Draft where
  root := .ofText r.root
  license := license
  modeline := modeline
  excluded := env.excludedBeginnings ++ r.excluded
  exempt := env.exemptBeginnings ++ r.exempt
  dryRun := r.dryRun

/-- An empty file name stands for no modeline at all. -/
def modelineText (r : Request) (env : Environment) (store : Store) : Except Fault Text :=
  let file := r.modeline.getD env.modelineFile
  if file = [] then .ok [] else Template.read store (.ofText file)

def config (r : Request) (env : Environment) : Job Config := do
  let store ← Job.store
  let license ← ofExcept (Template.read store (.ofText (r.header.getD env.headerFile)))
  let modeline ← ofExcept (r.modelineText env store)
  Job.note (.templateLoaded license.length)
  return .ofDraft (r.draft env license modeline)
where
  ofExcept {α : Type} : Except Fault α → Job α
    | .ok a => pure a
    | .error fault => throw fault

end Request

end LicenseHeaders
