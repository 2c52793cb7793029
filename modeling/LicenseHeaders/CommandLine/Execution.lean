import LicenseHeaders.CommandLine.Help
import LicenseHeaders.Console.ControlSequence
import LicenseHeaders.Console.Report
import LicenseHeaders.Environment
import LicenseHeaders.Insertion

/-!
Executing a call of the program: from its arguments and a store to what it prints, its exit code and
the changed store. A template that cannot be read is an error with exit code 1, an error in the
arguments one with exit code 2. A fault in the middle of a run leaves what was printed so far.
-/
namespace LicenseHeaders.CommandLine

structure Surroundings where
  environment : Environment := {}
  refusals : Refusals := fun _ => none
  time : Text := "00:00:00"

structure Result where
  exit : Nat
  stdout : List Text := []
  stderr : List Text := []
  /-- The fault that broke the run off, if one did. -/
  fault : Option Fault := none
  /-- What happened to the files, and what was told of it. -/
  journal : Journal := []
  store : Store
deriving DecidableEq, Repr

def written (lines : List Text) : Text := lines.flatMap (· ++ ['\n'])

def refuse (store : Store) (page : Page) (e : UsageError) : Result :=
  { exit := 2, stderr := (e.lines page).map ControlSequence.without, store }

def helpText (headerFile : Text) (page : Page) : List Text :=
  (page.helpLines headerFile).map ControlSequence.without

def eagerAnswer? (around : Surroundings) (store : Store) (page : Page) (read : Arguments) :
    Option Result :=
  read.eager?.map fun
    | .version => { exit := 0, stdout := [versionLine], store }
    | _ => { exit := 0, stdout := helpText around.environment.headerFile page, store }

def request (read : Arguments) : Request where
  root := (read.values .root).getLast?.getD "."
  header := (read.values .header).getLast?
  modeline := (read.values .modeline).getLast?
  excluded := read.values .exclude
  exempt := read.values .exempt
  dryRun := read.has .dryRun

def checkRoot (store : Store) (root : Text) : Except UsageError Unit :=
  match store.locateText root with
  | .error _ => .error (.rootMissing root)
  | .ok place =>
    match store.get? place with
    | some (.file _) => .error (.rootIsFile root)
    | _ => .ok ()

def checkOthers (read : Arguments) : Except UsageError Unit :=
  if read.others = [] then .ok () else .error (.extraArguments read.others)

def apply (around : Surroundings) (r : Request) : Job Tally := do
  Insertion.run (← r.config around.environment) around.refusals

def present (around : Surroundings) (verbose : Bool) (r : EStateM.Result Fault Progress Tally) :
    Result :=
  let shown (p : Progress) : Result :=
    { exit := 0
      stdout := p.journal.outcomes.map Report.outcomeLine
      stderr := Report.logLines around.time verbose p.journal.notices
      journal := p.journal
      store := p.store }
  match r with
  | .ok tally p => { shown p with stdout := (shown p).stdout ++ Report.closing tally }
  | .error (.template path fault) p =>
    { shown p with
      exit := 1
      stdout := (shown p).stdout ++ [Report.errorLine (Fault.template path fault).message] }
  | .error fault p => { shown p with exit := 1, fault := some fault }

def executeCommand (around : Surroundings) (verbose : Bool) (store : Store) (page : Page)
    (arguments : List Text) : Result :=
  match readArguments (page.options around.environment.headerFile) true arguments with
  | .error e => refuse store page e
  | .ok read =>
    match eagerAnswer? around store page read with
    | some answer => answer
    | none =>
      match page with
      | .apply =>
        if '\x00' ∈ (request read).root then { exit := 1, fault := some .nullInPath, store }
        else checked (checkRoot store (request read).root) <|
          checked (checkOthers read) <|
            present around verbose ((apply around (request read)).run { store })
      | _ => checked (checkOthers read) { exit := 0, stdout := languageTable.lines, store }
where
  checked (check : Except UsageError Unit) (result : Result) : Result :=
    match check with
    | .error e => refuse store page e
    | .ok () => result

/-- A command that does not exist is read once more as an option of the program, before it is
refused as a command. -/
def refuseCommand (around : Surroundings) (store : Store) (command : Text)
    (arguments : List Text) : Result :=
  match readArguments (Page.program.options []) false (command :: arguments) with
  | .error e => refuse store .program e
  | .ok read =>
    (eagerAnswer? around store .program read).getD
      (refuse store .program
        (.noSuchCommand command (Similar.closest command (Page.commands.map (·.1)))))

def execute (around : Surroundings) (store : Store) (arguments : List Text) : Result :=
  if arguments = [] then { exit := 2, stderr := helpText [] .program, store }
  else match readArguments (Page.program.options []) false arguments with
    | .error e => refuse store .program e
    | .ok read =>
      match eagerAnswer? around store .program read with
      | some answer => answer
      | none =>
        match read.others with
        | [] => refuse store .program .commandMissing
        | command :: rest =>
          match Page.commands.lookup command with
          | some page => executeCommand around (read.has .verbose) store page rest
          | none => refuseCommand around store command rest

def consulted (env : Environment) (arguments : List Text) : List Text :=
  match readArguments (Page.program.options []) false arguments with
  | .ok { others := command :: rest, .. } =>
    match Page.commands.lookup command, readArguments (Page.apply.options []) true rest with
    | some .apply, .ok read =>
      let r := request read
      [r.root, r.header.getD env.headerFile, r.modeline.getD env.modelineFile]
    | _, _ => []
  | _ => []

end LicenseHeaders.CommandLine
