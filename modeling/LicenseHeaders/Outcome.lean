import LicenseHeaders.Fault

/-!
The outcome for one file, and the tally of a run over all of them. Every outcome that is not `ok`
counts as modified, also when its file could not be replaced in the end.
-/
namespace LicenseHeaders

inductive Status where
  | ok
  | updated
  | wouldUpdate
deriving DecidableEq, Repr

def Status.text : Status → Text
  | .ok => "ok"
  | .updated => "UPDATED"
  | .wouldUpdate => "UPDATED (dry run)"

structure Outcome where
  path : Text
  status : Status
  failure : Option FailedMove := none
deriving DecidableEq, Repr

def Outcome.line (o : Outcome) : Text := o.path ++ " is " ++ o.status.text

structure Tally where
  ok : Nat := 0
  modified : Nat := 0
  modifiedFiles : List Text := []
  failures : List Outcome := []
deriving DecidableEq, Repr

namespace Tally

def record (t : Tally) (o : Outcome) : Tally :=
  let t :=
    if o.status = .ok then { t with ok := t.ok + 1 }
    else { t with modified := t.modified + 1, modifiedFiles := t.modifiedFiles ++ [o.path] }
  if o.failure.isSome then { t with failures := t.failures ++ [o] } else t

def ofOutcomes (outcomes : List Outcome) : Tally := outcomes.foldl record {}

def total (t : Tally) : Nat := t.ok + t.modified

def summary (t : Tally) : Text :=
  Text.decimal t.modified ++ " files changed, " ++ Text.decimal t.ok ++ " files ok."

end Tally

end LicenseHeaders
