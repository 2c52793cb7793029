import LicenseHeaders.Text.Basic

/-!
The languages that can carry a header. Each owns a few extensions, written with their dot, and
starts a one-line comment with its marker. Templates are written with the marker `//`; `comment`
puts a language's own marker wherever a line starts with that one. Only a line feed ends a line.
-/
namespace LicenseHeaders

inductive Language where
  | cFamily
  | assembly
  | ruby
  | interface
  | lua
deriving DecidableEq, Repr

namespace Language

def all : List Language := [.cFamily, .assembly, .ruby, .interface, .lua]

def marker : Language → Text
  | .cFamily => "//"
  | .assembly => ";"
  | .ruby => "#"
  | .interface => "#"
  | .lua => "--"

def extensions : Language → List Text
  | .cFamily => [".cpp", ".c", ".h", ".hpp"]
  | .assembly => [".s"]
  | .ruby => [".rb"]
  | .interface => [".if"]
  | .lua => [".lua"]

def label : Language → Text
  | .cFamily => "c_family"
  | .assembly => "assembly"
  | .ruby => "ruby"
  | .interface => "interface"
  | .lua => "lua"

theorem mem_all (l : Language) : l ∈ all := by cases l <;> decide

def ofExtension? (ext : Text) : Option Language := all.find? fun l => ext ∈ l.extensions

theorem nodup_extensions (l : Language) : l.extensions.Nodup := by cases l <;> decide

theorem eq_of_mem_extensions {a b : Language} {ext : Text} (here : ext ∈ a.extensions)
    (there : ext ∈ b.extensions) : a = b := by
  have apart : ∀ e ∈ a.extensions, e ∈ b.extensions → a = b := by
    cases a <;> cases b <;> decide
  exact apart ext here there

theorem mem_extensions_of_ofExtension? {l : Language} {ext : Text}
    (found : ofExtension? ext = some l) : ext ∈ l.extensions := by
  simpa using List.find?_some found

theorem ofExtension?_eq_some_iff {l : Language} {ext : Text} :
    ofExtension? ext = some l ↔ ext ∈ l.extensions := by
  constructor
  · exact mem_extensions_of_ofExtension?
  · intro own
    have known : (ofExtension? ext).isSome := List.find?_isSome.2 ⟨l, mem_all l, by simpa using own⟩
    obtain ⟨other, found⟩ := Option.isSome_iff_exists.1 known
    rw [found, eq_of_mem_extensions (mem_extensions_of_ofExtension? found) own]

/-- The text with the marker instead of `//` at the start of each line; `lineStart` says whether
the text starts a line itself. -/
def markFrom (marker : Text) : (lineStart : Bool) → Text → Text
  | true, '/' :: '/' :: rest => marker ++ markFrom marker false rest
  | _, c :: rest => c :: markFrom marker (c = '\n') rest
  | _, [] => []

def comment (l : Language) (template : Text) : Text :=
  if l.marker = "//" then template else markFrom l.marker true template

example : ruby.comment "// a\n x // b\n//\n" = "# a\n x // b\n#\n" := by decide

end Language

end LicenseHeaders
