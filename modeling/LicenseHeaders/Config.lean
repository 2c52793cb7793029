import LicenseHeaders.Path.Basic
import LicenseHeaders.Path.Relative
import LicenseHeaders.Registry
import LicenseHeaders.Text.Source

/-!
The configuration of a run. It is built from a draft in which the beginnings stand as the user wrote
them and the registry may be missing; then it is derived from the two templates. All questions about
a file are asked by its name relative to the root.
-/
namespace LicenseHeaders

structure Draft where
  root : Path := .ofText "."
  license : Text := []
  modeline : Text := []
  excluded : List Text := []
  exempt : List Text := []
  dryRun : Bool := false
  registry : Option Registry := none
deriving DecidableEq, Repr

structure Config where
  root : Path
  license : Text
  modeline : Text
  excluded : List Text
  exempt : List Text
  dryRun : Bool
  registry : Registry
deriving DecidableEq, Repr

namespace Config

def ofDraft (d : Draft) : Config where
  root := d.root
  license := d.license
  modeline := d.modeline
  excluded := d.excluded.map Beginning.normal
  exempt := d.exempt.map Beginning.normal
  dryRun := d.dryRun
  registry := d.registry.getD (.derive d.license d.modeline Language.all)

def excludes (c : Config) (directory : Text) : Bool := Beginning.matchesAny c.excluded directory

/-- A file is exempt by its directory or by its own name. -/
def exempts (c : Config) (directory rel : Text) : Bool :=
  c.exempt.any fun start => start.isPrefixOf directory || start.isPrefixOf rel

def header? (c : Config) (rel : Text) : Option Header := c.registry.get? (Relative.extension rel)

def eligible? (c : Config) (rel : Text) : Option Header :=
  if c.excludes (Relative.directory rel) then none else c.header? rel

def needsHeader (c : Config) (rel : Text) (content : SourceText) (header : Header) : Bool :=
  !occursIn (SourceText.ofText header.license) content &&
    !c.exempts (Relative.directory rel) rel

end Config

end LicenseHeaders
