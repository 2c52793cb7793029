import LicenseHeaders.Store.Operations

/-!
Building a store by hand: putting nodes at paths, with the directories above them, and taking them
away again with all that is below.
-/
namespace LicenseHeaders.Store

def empty (base : Location) : Store :=
  ⟨base, (List.range base.length).map fun n => (base.take (n + 1), .directory)⟩

def slot (s : Store) (p : Path) : Except Cause Location := do
  entryAt (← s.directoryOf p) (← lastName p)

def makeDirectory (s : Store) (p : Path) : Store :=
  match s.locate p, s.slot p with
  | .error .notFound, .ok place => s.put place .directory
  | _, _ => s

def makeDirectories (s : Store) (p : Path) : Store :=
  (List.range p.parts.length).foldl
    (fun s n => s.makeDirectory { p with parts := p.parts.take (n + 1) }) s

/-- A file is written through a link that is there; a link replaces what is there. -/
def plant (s : Store) (p : Path) (node : Node) : Store :=
  let s := s.makeDirectories { p with parts := p.parts.dropLast }
  match node with
  | .directory => s.makeDirectories p
  | .file contents =>
    match s.write p contents with
    | .ok (_, changed) => changed
    | .error _ => s
  | .link target =>
    match s.slot p with
    | .ok place => s.put place (.link target)
    | .error _ => s

def clear (s : Store) (p : Path) : Store :=
  match s.slot p with
  | .ok place => { s with nodes := s.nodes.filter fun entry => !place.isPrefixOf entry.1 }
  | .error _ => s

end LicenseHeaders.Store
