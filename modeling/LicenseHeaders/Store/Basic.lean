import LicenseHeaders.Text.Utf8

/-!
A store of files: finitely many nodes at locations. A location is the list of names on the way
down from the root; the root itself is always a directory. A node is a file with its contents, a
directory, or a link with the text of its target. A file stands at one location and has that one
name only: no other node shares its contents, as with a hard link. The view of a store is `get?`:
`get?_put` and `get?_erase` say what a change does to it.
-/
namespace LicenseHeaders

def IsName (t : Text) : Prop :=
  t ≠ [] ∧ t ≠ ['.'] ∧ t ≠ ['.', '.'] ∧ '/' ∉ t ∧ '\x00' ∉ t ∧ Utf8.size t ≤ 255

instance (t : Text) : Decidable (IsName t) :=
  inferInstanceAs (Decidable (_ ∧ _ ∧ _ ∧ _ ∧ _ ∧ _))

structure Name where
  text : Text
  isName : IsName text
deriving DecidableEq, Repr

def Name.ofText? (t : Text) : Option Name :=
  if h : IsName t then some ⟨t, h⟩ else none

abbrev Location := List Name

inductive Node where
  | file (contents : Bytes)
  | directory
  | link (target : Text)
deriving DecidableEq, Repr

inductive Kind where
  | file
  | directory
  | link
deriving DecidableEq, Repr

def Node.kind : Node → Kind
  | .file _ => .file
  | .directory => .directory
  | .link _ => .link

structure Entry where
  name : Name
  kind : Kind
deriving DecidableEq, Repr

/-- Relative paths start at `base`. A file has one name only; that of a link which leads to it is no
second one. -/
structure Store where
  base : Location
  nodes : List (Location × Node)
deriving DecidableEq, Repr

namespace Store

def get? (s : Store) (place : Location) : Option Node :=
  if place = [] then some .directory else s.nodes.lookup place

def put (s : Store) (place : Location) (node : Node) : Store :=
  { s with nodes := (place, node) :: s.nodes.filter (·.1 ≠ place) }

def erase (s : Store) (place : Location) : Store :=
  { s with nodes := s.nodes.filter (·.1 ≠ place) }

def IsDirectory (s : Store) (place : Location) : Prop := s.get? place = some .directory

instance (s : Store) (place : Location) : Decidable (s.IsDirectory place) :=
  inferInstanceAs (Decidable (_ = _))

/-- How many directories the store holds, the root apart. -/
def directoryCount (s : Store) : Nat :=
  (s.nodes.filter fun entry => entry.2 = .directory).length

def nameIn? (directory place : Location) : Option Name :=
  if place.dropLast = directory then place.getLast? else none

/-- Puts a name where it belongs in increasing order; a name that is there is not put again. -/
def insertName (name : Name) : List Name → List Name
  | [] => [name]
  | next :: rest =>
    if name.text < next.text then name :: next :: rest
    else if name = next then next :: rest
    else next :: insertName name rest

def namesIn (s : Store) (directory : Location) : List Name :=
  (s.nodes.filterMap fun entry => nameIn? directory entry.1).foldr insertName []

def entriesIn (s : Store) (directory : Location) : List Entry :=
  (s.namesIn directory).filterMap fun name =>
    (s.get? (directory ++ [name])).map fun node => ⟨name, node.kind⟩

theorem lookup_cons (key place : Location) (node : Node) (nodes : List (Location × Node)) :
    ((place, node) :: nodes).lookup key = if key = place then some node else nodes.lookup key := by
  by_cases h : key = place
  · simp [h]
  · simp [List.lookup_cons, h, beq_eq_false_iff_ne.2 h]

theorem lookup_filter_ne (key place : Location) (nodes : List (Location × Node)) :
    (nodes.filter (·.1 ≠ place)).lookup key = if key = place then none else nodes.lookup key := by
  induction nodes with
  | nil => simp
  | cons entry rest ih =>
    obtain ⟨first, node⟩ := entry
    by_cases same : first = place
    · subst same
      have drop : decide (first ≠ first) = false := by simp
      simp only [List.filter_cons, drop, Bool.false_eq_true, if_false, lookup_cons, ih]
      split <;> rfl
    · have keep : decide (first ≠ place) = true := by simp [same]
      simp only [List.filter_cons, keep, if_true, lookup_cons, ih]
      by_cases h : key = first
      · subst h
        simp [same]
      · simp [h]

theorem get?_put (s : Store) (place other : Location) (node : Node) (below : place ≠ []) :
    (s.put place node).get? other = if other = place then some node else s.get? other := by
  by_cases root : other = []
  · subst root
    simp [get?, Ne.symm below]
  · simp only [get?, put, root, if_false, lookup_cons, lookup_filter_ne]
    split <;> simp_all

theorem get?_erase (s : Store) (place other : Location) (below : place ≠ []) :
    (s.erase place).get? other = if other = place then none else s.get? other := by
  by_cases root : other = []
  · subst root
    simp [get?, Ne.symm below]
  · simp only [get?, erase, root, if_false, lookup_filter_ne]

end Store

end LicenseHeaders
