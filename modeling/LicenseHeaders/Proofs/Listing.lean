import Mathlib.Data.Char
import Mathlib.Data.List.Lex
import LicenseHeaders.Store.Basic

/-!
The listing of a directory. It shows each entry once, with the kind of the node that is there, and
the names increase. Nothing else of a store enters into it, neither the order in which its nodes
are held nor what has been there before.
-/
namespace LicenseHeaders.Store

def Earlier (a b : Name) : Prop := a.text < b.text

theorem Earlier.trans {a b c : Name} (first : Earlier a b) (second : Earlier b c) : Earlier a c :=
  lt_trans (α := Text) first second

theorem earlier_of_not {a b : Name} (first : ¬ a.text < b.text) (other : a ≠ b) : Earlier b a := by
  rcases lt_trichotomy (α := Text) a.text b.text with less | same | greater
  · exact absurd less first
  · cases a
    cases b
    simp_all
  · exact greater

theorem mem_insertName (name other : Name) (names : List Name) :
    other ∈ insertName name names ↔ other = name ∨ other ∈ names := by
  induction names with
  | nil => simp [insertName]
  | cons next rest ih =>
    unfold insertName
    split
    · simp
    · split
      · rename_i same
        subst same
        simp
      · simp only [List.mem_cons, ih]
        constructor
        · intro given
          rcases given with first | found | later
          · exact .inr (.inl first)
          · exact .inl found
          · exact .inr (.inr later)
        · intro given
          rcases given with found | first | later
          · exact .inr (.inl found)
          · exact .inl first
          · exact .inr (.inr later)

theorem sorted_insertName (name : Name) {names : List Name} (h : names.Pairwise Earlier) :
    (insertName name names).Pairwise Earlier := by
  induction names with
  | nil => simp [insertName]
  | cons next rest ih =>
    obtain ⟨first, later⟩ := List.pairwise_cons.1 h
    unfold insertName
    split
    case isTrue less =>
      refine List.pairwise_cons.2 ⟨?_, h⟩
      intro other member
      rcases List.mem_cons.1 member with rfl | member
      · exact less
      · exact Earlier.trans (show Earlier name next from less) (first other member)
    case isFalse notLess =>
      split
      · exact h
      · rename_i differs
        refine List.pairwise_cons.2 ⟨?_, ih later⟩
        intro other member
        rcases (mem_insertName name other rest).1 member with rfl | member
        · exact earlier_of_not notLess differs
        · exact first other member

theorem nameIn?_eq_some {directory place : Location} {name : Name} :
    nameIn? directory place = some name ↔ place = directory ++ [name] := by
  unfold nameIn?
  constructor
  · intro h
    split at h
    · rename_i above
      obtain ⟨before, rfl⟩ := List.getLast?_eq_some_iff.1 h
      rw [List.dropLast_concat] at above
      rw [above]
    · cases h
  · intro same
    subst same
    simp

theorem mem_namesIn {s : Store} {directory : Location} {name : Name} :
    name ∈ s.namesIn directory ↔ ∃ node, (directory ++ [name], node) ∈ s.nodes := by
  have members : ∀ names : List Name, name ∈ names.foldr insertName [] ↔ name ∈ names := by
    intro names
    induction names with
    | nil => simp
    | cons next rest ih => simp [mem_insertName, ih]
  unfold namesIn
  rw [members, List.mem_filterMap]
  constructor
  · intro given
    obtain ⟨⟨place, node⟩, member, named⟩ := given
    rw [nameIn?_eq_some] at named
    exact ⟨node, named ▸ member⟩
  · intro given
    obtain ⟨node, member⟩ := given
    exact ⟨_, member, nameIn?_eq_some.2 rfl⟩

theorem sorted_namesIn (s : Store) (directory : Location) :
    (s.namesIn directory).Pairwise Earlier := by
  unfold namesIn
  induction s.nodes.filterMap fun entry => nameIn? directory entry.1 with
  | nil => simp
  | cons name rest ih => exact sorted_insertName name ih

theorem mem_of_get? {s : Store} {place : Location} {node : Node} (below : place ≠ [])
    (h : s.get? place = some node) : (place, node) ∈ s.nodes := by
  rw [get?, if_neg below, List.lookup_eq_some_iff] at h
  obtain ⟨before, after, eq, _⟩ := h
  rw [eq]
  simp

theorem mem_entriesIn {s : Store} {directory : Location} {entry : Entry} :
    entry ∈ s.entriesIn directory ↔
      ∃ node, s.get? (directory ++ [entry.name]) = some node ∧ entry.kind = node.kind := by
  unfold entriesIn
  rw [List.mem_filterMap]
  constructor
  · intro given
    obtain ⟨name, _, shown⟩ := given
    obtain ⟨node, found, rfl⟩ := Option.map_eq_some_iff.1 shown
    exact ⟨node, found, rfl⟩
  · intro given
    obtain ⟨node, found, kind⟩ := given
    refine ⟨entry.name, mem_namesIn.2 ⟨node, mem_of_get? (by simp) found⟩, ?_⟩
    rw [found, Option.map_some, ← kind]

theorem sorted_entriesIn (s : Store) (directory : Location) :
    (s.entriesIn directory).Pairwise fun a b => Earlier a.name b.name := by
  unfold entriesIn
  refine List.Pairwise.filterMap _ ?_ (s.sorted_namesIn directory)
  intro a b earlier shown inA shown' inB
  obtain ⟨_, _, rfl⟩ := Option.map_eq_some_iff.1 inA
  obtain ⟨_, _, rfl⟩ := Option.map_eq_some_iff.1 inB
  exact earlier

theorem entries_ext {a b : List Entry} (sorted : a.Pairwise fun x y => Earlier x.name y.name)
    (sorted' : b.Pairwise fun x y => Earlier x.name y.name)
    (same : ∀ entry, entry ∈ a ↔ entry ∈ b) : a = b := by
  have irreflexive : ∀ entry : Entry, ¬ Earlier entry.name entry.name :=
    fun entry => lt_irrefl (α := Text) _
  have different : ∀ {x y : Entry}, Earlier x.name y.name → x ≠ y := by
    intro x y earlier eq
    rw [eq] at earlier
    exact irreflexive y earlier
  have perm : a.Perm b :=
    (List.perm_ext_iff_of_nodup (sorted.imp different) (sorted'.imp different)).2 same
  refine List.Perm.eq_of_pairwise ?_ sorted sorted' perm
  intro x y _ _ first second
  exact absurd (Earlier.trans first second) (irreflexive x)

theorem entriesIn_congr {s s' : Store} {directory : Location}
    (same : ∀ name, s'.get? (directory ++ [name]) = s.get? (directory ++ [name])) :
    s'.entriesIn directory = s.entriesIn directory := by
  refine entries_ext (s'.sorted_entriesIn directory) (s.sorted_entriesIn directory) ?_
  intro entry
  rw [mem_entriesIn, mem_entriesIn, same]

end LicenseHeaders.Store
