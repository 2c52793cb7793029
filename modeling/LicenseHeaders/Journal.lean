import LicenseHeaders.Outcome
import LicenseHeaders.Store.Operations

/-!
What happens in the course of an operation. A job reads and changes a store and writes a journal
of events; both survive when a fault ends it, so the journal of a failed job tells how far it came.
The log and the reported outcomes are read off the journal.
-/
namespace LicenseHeaders

inductive Level where
  | debug
  | info
  | warning
  | error
deriving DecidableEq, Repr

namespace Level

def label : Level → Text
  | .debug => "DEBUG"
  | .info => "INFO"
  | .warning => "WARNING"
  | .error => "ERROR"

def rank : Level → Nat
  | .debug => 10
  | .info => 20
  | .warning => 30
  | .error => 40

end Level

inductive Notice where
  | templateLoaded (length : Nat)
  | directorySkipped (rel : Text)
  | headerPrepended (rel : Text)
  | moveFailed (failure : FailedMove)
  | scanned (total : Nat) (root : Path) (summary : Text)
deriving DecidableEq, Repr

namespace Notice

def level : Notice → Level
  | .templateLoaded _ => .debug
  | .directorySkipped _ => .debug
  | .headerPrepended _ => .debug
  | .moveFailed _ => .error
  | .scanned _ _ _ => .info

def speaker : Notice → Text
  | .templateLoaded _ => "boilerplate.config"
  | .directorySkipped _ => "boilerplate.fsutils"
  | .headerPrepended _ => "boilerplate.applier"
  | .moveFailed _ => "boilerplate.applier"
  | .scanned _ _ _ => "boilerplate.applier"

def message : Notice → Text
  | .templateLoaded length => "Loaded license template (" ++ Text.decimal length ++ " chars)"
  | .directorySkipped rel => "Skipping excluded directory " ++ rel
  | .headerPrepended rel => "Prepended header to " ++ rel
  | .moveFailed failure => failure.message
  | .scanned total root summary =>
    "Scanned " ++ Text.decimal total ++ " files under " ++ root.toText ++ ": " ++ summary

end Notice

inductive Event where
  | listed (directory : Location)
  | wrote (place : Location) (contents : Bytes)
  | moved (source target : Location)
  | noted (notice : Notice)
  | reported (outcome : Outcome)
deriving DecidableEq, Repr

abbrev Journal := List Event

namespace Journal

def notices (j : Journal) : List Notice :=
  j.filterMap fun
    | .noted notice => some notice
    | _ => none

def outcomes (j : Journal) : List Outcome :=
  j.filterMap fun
    | .reported outcome => some outcome
    | _ => none

def listings (j : Journal) : List Location :=
  j.filterMap fun
    | .listed directory => some directory
    | _ => none

end Journal

/-- How far a job has come: the store as it is now, and all events so far in their order. -/
structure Progress where
  store : Store
  journal : Journal := []
deriving DecidableEq, Repr

abbrev Job := EStateM Fault Progress

namespace Job

def record (event : Event) : Job Unit :=
  modify fun p => { p with journal := p.journal ++ [event] }

def note (notice : Notice) : Job Unit := record (.noted notice)

def change (store : Store) (event : Event) : Job Unit :=
  modify fun p => { store := store, journal := p.journal ++ [event] }

def store : Job Store := do return (← get).store

def orFault (path : Text) : Except Cause α → Job α
  | .ok a => pure a
  | .error cause => throw (.system (.ofCause cause path))

def guardPath (p : Path) : Job Unit :=
  if '\x00' ∈ p.toText then throw .nullInPath else pure ()

def read (p : Path) : Job Bytes := do
  guardPath p
  orFault p.toText ((← store).read p)

def list (p : Path) : Job (List Entry) := do
  guardPath p
  let (directory, entries) ← orFault p.toText ((← store).list p)
  record (.listed directory)
  return entries

def write (p : Path) (contents : Bytes) : Job Unit := do
  guardPath p
  let (place, changed) ← orFault p.toText ((← store).write p contents)
  change changed (.wrote place contents)

end Job

end LicenseHeaders
