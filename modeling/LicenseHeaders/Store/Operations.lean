import LicenseHeaders.Store.Resolve

/-!
Reading and changing a store by path. Reading, listing and writing follow links; a move acts on the
entries themselves, so a link that is moved over disappears and its target stays as it was. The
changes answer the locations they touched together with the new store.
-/
namespace LicenseHeaders.Store

def kindAt (s : Store) (p : Path) : Except Cause Kind := do
  let place ← s.locate p
  match s.get? place with
  | some node => pure node.kind
  | none => throw .notFound

def read (s : Store) (p : Path) : Except Cause Bytes := do
  let place ← s.locate p
  match s.get? place with
  | some (.file contents) => pure contents
  | some .directory => throw .isADirectory
  | _ => throw .notFound

def list (s : Store) (p : Path) : Except Cause (Location × List Entry) := do
  let place ← s.locate p
  match s.get? place with
  | some .directory => pure (place, s.entriesIn place)
  | some _ => throw .notADirectory
  | none => throw .notFound

def write (s : Store) (p : Path) (contents : Bytes) : Except Cause (Location × Store) := do
  let place ← s.locateForWriting p
  match s.get? place with
  | some .directory => throw .isADirectory
  | _ => pure (place, s.put place (.file contents))

/-- Moves a file or a link over whatever file or link is at the target. -/
def move (s : Store) (source target : Path) : Except Cause ((Location × Location) × Store) := do
  let sourceDirectory ← s.directoryOf source
  let targetDirectory ← s.directoryOf target
  let sourceName ← lastName source
  let targetName ← lastName target
  let old ← entryAt sourceDirectory sourceName
  match s.get? old with
  | none => throw .notFound
  | some .directory => throw .isADirectory
  | some node =>
    let new ← entryAt targetDirectory targetName
    if s.get? new = some .directory then throw .isADirectory
    pure ((old, new), (s.erase old).put new node)

end LicenseHeaders.Store
