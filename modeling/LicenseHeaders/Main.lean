import LicenseHeaders.CommandLine.Execution
import LicenseHeaders.Store.Setup
import Std.Time.DateTime.Timestamp

/-!
The program. It reads the files that a call may look at into a store, executes the call, and carries
out on the disk what the journal says was written and moved, in the same order.
-/
namespace LicenseHeaders.Disk

def names (path : String) : Location :=
  (Path.partsOf path.toList).filterMap Name.ofText?

def pathText (place : Location) : String :=
  String.ofList ('/' :: ['/'].intercalate (place.map (·.text)))

def realPath? (path : String) : IO (Option String) := do
  try return some (← IO.FS.realPath path).toString catch _ => return none

def withAbove (store : Store) (place : Location) : Store :=
  { store with nodes := store.nodes ++ (Store.empty place.dropLast).nodes }

/-- Adds a link, and what it leads to, the contents of a directory apart. A link that leads nowhere
gets a target that is not there. -/
def loadLink (store : Store) (path : String) : IO Store := do
  match ← realPath? path with
  | none => return store.put (names path) (.link (path ++ ".missing").toList)
  | some target =>
    let store := withAbove (store.put (names path) (.link target.toList)) (names target)
    match (← (← IO.FS.realPath target).metadata).type with
    | .file => return store.put (names target) (.file (← IO.FS.readBinFile target).toList)
    | .dir => return { store with nodes := store.nodes ++ [(names target, .directory)] }
    | _ => return store

partial def load (store : Store) (path : String) : IO Store := do
  let place := names path
  match (← (← IO.FS.realPath path).metadata).type with
  | .dir =>
    let mut store := store.put place .directory
    for entry in ← (← IO.FS.realPath path).readDir do
      let inner := path ++ "/" ++ entry.fileName
      match (← entry.path.symlinkMetadata).type with
      | .dir => store ← load store inner
      | .symlink => store ← loadLink store inner
      | .file => store := store.put (names inner) (.file (← IO.FS.readBinFile inner).toList)
      | .other => pure ()
    return store
  | .file => return store.put place (.file (← IO.FS.readBinFile path).toList)
  | _ => return store

def loadAt (store : Store) (text : Text) : IO Store := do
  match ← realPath? (String.ofList text) with
  | none => return store
  | some path => load (withAbove store (names path)) path

def perform : Event → IO Unit
  | .wrote place contents => IO.FS.writeBinFile (pathText place) ⟨contents.toArray⟩
  | .moved source target => IO.FS.rename (pathText source) (pathText target)
  | _ => return

def setting? (name : String) : IO (Option Text) := return (← IO.getEnv name).map (·.toList)

def environment : IO Environment := do
  return {
    header := ← setting? "BOILERPLATE_HEADER"
    modeline := ← setting? "BOILERPLATE_MODELINE"
    excluded := ← setting? "BOILERPLATE_EXCLUDE"
    exempt := ← setting? "BOILERPLATE_NO_LICENSE" }

def time : IO Text := do
  let seconds := ((← Std.Time.Timestamp.now).toSecondsSinceUnixEpoch.val % 86400).toNat
  let digits (n : Nat) : Text := (if n < 10 then ['0'] else []) ++ Text.decimal n
  return digits (seconds / 3600) ++ ":" ++ digits (seconds / 60 % 60) ++ ":" ++ digits (seconds % 60)

end LicenseHeaders.Disk

open LicenseHeaders in
def main (arguments : List String) : IO UInt32 := do
  let environment ← Disk.environment
  let mut store := Store.empty (Disk.names (← IO.currentDir).toString)
  let arguments := arguments.map String.toList
  for path in CommandLine.consulted environment arguments do
    store ← Disk.loadAt store path
  let around := { environment, time := ← Disk.time : CommandLine.Surroundings }
  let result := CommandLine.execute around store arguments
  result.journal.forM Disk.perform
  IO.print (String.ofList (CommandLine.written result.stdout))
  IO.eprint (String.ofList (CommandLine.written result.stderr))
  if let some fault := result.fault then
    IO.eprintln (String.ofList fault.message)
  return UInt32.ofNat result.exit
