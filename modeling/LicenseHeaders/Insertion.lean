import LicenseHeaders.Config
import LicenseHeaders.Traversal

/-!
Putting headers in front of files. A file that needs its header is written anew beside itself, under
its own name with `.new` behind, and that file is then moved over it. If the move fails, the file is
as it was, the new one stays beside it, and the run goes on; any other fault ends the run.
-/
namespace LicenseHeaders

structure Refusal where
  code : Int
  text : Text
deriving DecidableEq, Repr

/-- Which moves will be refused, by the text of the path that is to be replaced. -/
abbrev Refusals := Text → Option Refusal

def Refusal.error (r : Refusal) : SystemError := .coded r.code r.text .nothing

namespace Insertion

def temporaryEnding : Text := ".new"

def readSource (p : Path) : Job SourceText := return .ofBytes (← Job.read p)

def moveOver (refusals : Refusals) (temporary p : Path) : Job (Option FailedMove) := do
  match refusals p.toText with
  | some refusal => return some ⟨temporary, p, refusal.error⟩
  | none =>
    match (← Job.store).move temporary p with
    | .ok ((old, new), changed) =>
      Job.change changed (.moved old new)
      return none
    | .error cause => return some ⟨temporary, p, .ofMove cause temporary.toText p.toText⟩

/-- Replaces the contents of a file as a whole, and answers why it could not be moved into place. -/
def replace (refusals : Refusals) (p : Path) (content : SourceText) : Job (Option FailedMove) := do
  match p.beside? temporaryEnding with
  | none => throw (.nameless p)
  | some temporary =>
    Job.write temporary content.toBytes
    moveOver refusals temporary p

def process (c : Config) (refusals : Refusals) (p : Path) (rel : Text) (header : Header) :
    Job Outcome := do
  let content ← readSource p
  if !c.needsHeader rel content header then
    return { path := rel, status := .ok }
  if c.dryRun then
    return { path := rel, status := .wouldUpdate }
  match ← replace refusals p (.ofText header.text ++ content) with
  | some failure =>
    Job.note (.moveFailed failure)
    return { path := rel, status := .updated, failure := some failure }
  | none =>
    Job.note (.headerPrepended rel)
    return { path := rel, status := .updated }

def candidates (c : Config) : Job (List (Path × Text × Header)) := do
  let found ← Traversal.overFiles c.excludes
    (fun path rel => return (c.eligible? rel).map (path, rel, ·)) c.root
  return found.filterMap id

def settle (c : Config) (refusals : Refusals) (p : Path) (rel : Text) : Job (Option Outcome) := do
  match c.eligible? rel with
  | none => return none
  | some header =>
    let outcome ← process c refusals p rel header
    Job.record (.reported outcome)
    return some outcome

def run (c : Config) (refusals : Refusals) : Job Tally := do
  let outcomes ← Traversal.overFiles c.excludes (settle c refusals) c.root
  let tally := Tally.ofOutcomes (outcomes.filterMap id)
  Job.note (.scanned tally.total c.root tally.summary)
  return tally

end Insertion

end LicenseHeaders
