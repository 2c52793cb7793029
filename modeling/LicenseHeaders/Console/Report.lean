import LicenseHeaders.Console.Markup
import LicenseHeaders.Journal

/-!
What a run shows: on the console a line for each outcome, the summary, and the modified files with
their numbers; in the log a line for each notice that is loud enough.
-/
namespace LicenseHeaders.Report

def style : Status → Text
  | .ok => "green"
  | .updated => "bold yellow"
  | .wouldUpdate => "yellow"

def outcomeLine (o : Outcome) : Text :=
  Markup.plainText ("[" ++ style o.status ++ "]" ++ Markup.escape o.line ++ "[/]")

def numberedLine (number : Nat) (path : Text) : Text :=
  Markup.plainText ("  " ++ Text.decimal number ++ ". " ++ Markup.escape path)

def numberedFrom (number : Nat) : List Text → List Text
  | [] => []
  | path :: rest => numberedLine number path :: numberedFrom (number + 1) rest

def errorLine (message : Text) : Text :=
  Markup.plainText ("[bold red]Error:[/] " ++ Markup.escape message)

def closing (t : Tally) : List Text :=
  t.summary ::
    if t.modifiedFiles = [] then [] else "Modified files:" :: numberedFrom 1 t.modifiedFiles

def threshold (verbose : Bool) : Level := if verbose then .debug else .warning

def logLine (time : Text) (n : Notice) : Text :=
  time ++ " [" ++ n.speaker ++ "] " ++ n.level.label ++ " — " ++ n.message

def logLines (time : Text) (verbose : Bool) (notices : List Notice) : List Text :=
  (notices.filter fun n => (threshold verbose).rank ≤ n.level.rank).map (logLine time)

end LicenseHeaders.Report
