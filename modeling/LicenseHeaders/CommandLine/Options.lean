import LicenseHeaders.CommandLine.Similar
import LicenseHeaders.Text.Printable

/-!
Reading the arguments of a command by a table of its options. An option is written in its long form,
where a value may stand behind `=` or in the next argument, or in its short form, where several may
share one hyphen; only options without a value have a short form. `--` ends the options. A command
may allow other arguments between its options, or end the options with the first one.
-/
namespace LicenseHeaders.CommandLine

inductive OptionName where
  | version
  | verbose
  | help
  | root
  | header
  | modeline
  | exclude
  | exempt
  | dryRun
deriving DecidableEq, Repr

structure OptionSpec where
  name : OptionName
  long : Text
  short : Option Char := none
  /-- What its value is called, if it takes one. -/
  value : Option Text := none
  help : Text
deriving DecidableEq, Repr

/-- An option as it was given; one without a value has the empty one. -/
structure Given where
  name : OptionName
  value : Text := []
deriving DecidableEq, Repr

structure Arguments where
  given : List Given := []
  others : List Text := []
deriving DecidableEq, Repr

inductive UsageError where
  | noSuchOption (option : Text) (near : List Text)
  | valueMissing (option : Text)
  | valueUnwanted (option : Text)
  | noSuchCommand (command : Text) (near : List Text)
  | commandMissing
  | rootMissing (root : Text)
  | rootIsFile (root : Text)
  | extraArguments (arguments : List Text)
deriving DecidableEq, Repr

namespace UsageError

def hint (near : List Text) : Text :=
  match near with
  | [] => []
  | [one] => " Did you mean " ++ Text.quoted one ++ "?"
  | _ =>
    let sorted := near.mergeSort fun a b => !decide (b < a)
    " (Did you mean one of: " ++ Text.joinWith ", " (sorted.map Text.quoted) ++ "?)"

def message : UsageError → Text
  | .noSuchOption option near => "No such option " ++ Text.quoted option ++ "." ++ hint near
  | .valueMissing option => "Option " ++ Text.quoted option ++ " requires an argument."
  | .valueUnwanted option => "Option " ++ Text.quoted option ++ " does not take a value."
  | .noSuchCommand command near => "No such command " ++ Text.quoted command ++ "." ++ hint near
  | .commandMissing => "Missing command."
  | .rootMissing root =>
    "Invalid value for '--root': Directory " ++ Text.quoted root ++ " does not exist."
  | .rootIsFile root => "Invalid value for '--root': Directory " ++ Text.quoted root ++ " is a file."
  | .extraArguments arguments =>
    (if arguments.length = 1 then "Got unexpected extra argument ("
      else "Got unexpected extra arguments (" : Text) ++ Text.joinWith " " arguments ++ ")"

def standsAlone : UsageError → Bool
  | .valueMissing _ => true
  | .valueUnwanted _ => true
  | _ => false

end UsageError

inductive Reading where
  | complete (given : List Given)
  | wantsValue (name : OptionName) (option : Text)
deriving DecidableEq, Repr

def readShort (specs : List OptionSpec) : Text → Except UsageError (List Given)
  | [] => .ok []
  | c :: rest =>
    match specs.find? fun spec => spec.short = some c with
    | some spec => (readShort specs rest).map ({ name := spec.name } :: ·)
    | none => .error (.noSuchOption ['-', c] [])

def cutAtEquals (argument : Text) : Text × Option Text :=
  match argument.dropWhile (· ≠ '=') with
  | _ :: value => (argument.takeWhile (· ≠ '='), some value)
  | [] => (argument, none)

def readOption (specs : List OptionSpec) (argument : Text) : Except UsageError Reading :=
  let (long, value?) := cutAtEquals argument
  match specs.find? fun spec => spec.long = long with
  | some spec =>
    match spec.value, value? with
    | some _, some value => .ok (.complete [{ name := spec.name, value := value }])
    | some _, none => .ok (.wantsValue spec.name long)
    | none, some _ => .error (.valueUnwanted long)
    | none, none => .ok (.complete [{ name := spec.name }])
  | none =>
    if ['-', '-'].isPrefixOf argument then
      .error (.noSuchOption long (Similar.closest long (specs.map (·.long))))
    else (readShort specs (argument.drop 1)).map .complete

def isOption (argument : Text) : Bool := argument.head? = some '-' && 1 < argument.length

def readArguments (specs : List OptionSpec) (interspersed : Bool) :
    List Text → Except UsageError Arguments
  | [] => .ok {}
  | argument :: rest =>
    if argument = ['-', '-'] then .ok { others := rest }
    else if isOption argument then
      match readOption specs argument with
      | .error e => .error e
      | .ok (.complete given) =>
        (readArguments specs interspersed rest).map fun read =>
          { read with given := given ++ read.given }
      | .ok (.wantsValue name option) =>
        match rest with
        | [] => .error (.valueMissing option)
        | value :: rest =>
          (readArguments specs interspersed rest).map fun read =>
            { read with given := { name := name, value := value } :: read.given }
    else if interspersed then
      (readArguments specs interspersed rest).map fun read =>
        { read with others := argument :: read.others }
    else .ok { others := argument :: rest }

namespace Arguments

def has (a : Arguments) (name : OptionName) : Bool := a.given.any fun g => g.name = name

def values (a : Arguments) (name : OptionName) : List Text :=
  (a.given.filter fun g => g.name = name).map (·.value)

/-- The first of the options that answer by themselves, whatever else is given. -/
def eager? (a : Arguments) : Option OptionName :=
  (a.given.find? fun g => g.name = .version ∨ g.name = .help).map (·.name)

end Arguments

end LicenseHeaders.CommandLine
