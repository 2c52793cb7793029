import LicenseHeaders.CommandLine.Options
import LicenseHeaders.Console.Wrapped
import LicenseHeaders.Language
import LicenseHeaders.Console.Table

/-!
The commands and what the program says about itself: usage, help pages, version and the table of
languages. Help pages are 78 characters wide; the explanations start in one column, which is at
most 32 characters to the right of the options.
-/
namespace LicenseHeaders.CommandLine

inductive Page where
  | program
  | apply
  | languages
deriving DecidableEq, Repr

namespace Page

def path : Page → Text
  | .program => "boilerplate"
  | .apply => "boilerplate apply"
  | .languages => "boilerplate languages"

def summary : Page → Text
  | .program => "Boilerplate — keep license headers on every source file."
  | .apply => "Prepend the license header to files that lack it."
  | .languages => "List recognized extensions and their comment markers."

def helpOption : OptionSpec :=
  { name := .help, long := "--help", help := "Show this message and exit." }

def options (headerFile : Text) : Page → List OptionSpec
  | .program =>
    [{ name := .version, long := "--version", help := "Show the version and exit." },
      { name := .verbose, long := "--verbose", short := some 'v', help := "Enable debug logging" },
      helpOption]
  | .apply =>
    [{ name := .root, long := "--root", value := some "DIRECTORY",
        help := "Directory to scan recursively" },
      { name := .header, long := "--header", value := some "TEXT",
        help := "License template file (default: " ++ headerFile ++ ")" },
      { name := .modeline, long := "--modeline", value := some "TEXT",
        help := "Modeline template file" },
      { name := .exclude, long := "--exclude", value := some "TEXT",
        help := "Directory prefix to skip (repeatable)" },
      { name := .exempt, long := "--no-license", value := some "TEXT",
        help := "Path prefix exempt from the license rule (repeatable)" },
      { name := .dryRun, long := "--dry-run", help := "Report changes without writing files" },
      helpOption]
  | .languages => [helpOption]

def commands : List (Text × Page) := [("apply", .apply), ("languages", .languages)]

def width : Nat := 78

def usage (page : Page) : Text :=
  "Usage: " ++ page.path ++
    match page with
    | .program => " [OPTIONS] COMMAND [ARGS]..."
    | _ => " [OPTIONS]"

def optionText (spec : OptionSpec) : Text :=
  (match spec.short with
    | some c => ['-', c] ++ ", "
    | none => []) ++ spec.long ++
  (match spec.value with
    | some value => " " ++ value
    | none => [])

/-- Terms with their explanations. A term that is too long for its column stands on its own line. -/
def explain (rows : List (Text × Text)) : List Text :=
  let column := min ((rows.map fun row => row.1.length).foldl max 0) 30 + 2
  let further := Text.spaces (column + 2)
  rows.flatMap fun (term, explanation) =>
    match Wrapped.layout (max (width - column - 2) 10) explanation with
    | [] => ["  " ++ term]
    | line :: more =>
      (if term.length ≤ column - 2 then ["  " ++ Table.padTo column term ++ line]
        else ["  " ++ term, further ++ line]) ++ more.map (further ++ ·)

def helpLines (headerFile : Text) (page : Page) : List Text :=
  [page.usage, [], "  " ++ page.summary, [], "Options:"] ++
    explain ((page.options headerFile).map fun spec => (optionText spec, spec.help)) ++
    match page with
    | .program =>
      [[], "Commands:"] ++ explain (commands.map fun (name, page) => (name, page.summary))
    | _ => []

end Page

def versionLine : Text := "boilerplate, version 1.0.0"

def languageTable : Table where
  title := "Recognized extensions"
  header := ["Language", "Extensions", "Marker"]
  rows := Language.all.map fun l => [l.label, Text.joinWith ", " l.extensions, l.marker]

def UsageError.lines (e : UsageError) (page : Page) : List Text :=
  (if e.standsAlone then []
    else [page.usage, "Try '" ++ page.path ++ " --help' for help.", []]) ++
    ["Error: " ++ e.message]

end LicenseHeaders.CommandLine
