import Mathlib.Data.List.Induction
import Mathlib.Data.List.TakeWhile
import LicenseHeaders.Config
import LicenseHeaders.Proofs.Entry

/-!
The files and directories below a root, by the names on the way down. The same names give the path
of a file, its name relative to the root, and its location. The rules of a run see the relative name
alone: its directory is that of the names without the last, and its extension that of the last.
-/
namespace LicenseHeaders

namespace Relative

theorem fromLast_eq_none {mark : Char} {t : Text} : fromLast mark t = none ↔ mark ∉ t := by
  induction t with
  | nil => simp [fromLast]
  | cons c rest ih =>
    unfold fromLast
    cases found : fromLast mark rest with
    | some part =>
      have there : mark ∈ rest := by
        by_cases there : mark ∈ rest
        · exact there
        · rw [ih.2 there] at found
          cases found
      simp [there]
    | none =>
      have missing := ih.1 found
      by_cases same : c = mark
      · simp [same]
      · simp [same, missing, Ne.symm same]

theorem fromLast_append (mark : Char) (before : Text) {after : Text} (last : mark ∉ after) :
    fromLast mark (before ++ mark :: after) = some (mark :: after) := by
  induction before with
  | nil => simp [fromLast, fromLast_eq_none.2 last]
  | cons c rest ih =>
    rw [List.cons_append, fromLast, ih]

theorem lastPart_child (directory : Text) {name : Text} (plain : '/' ∉ name) :
    lastPart (child directory name) = name := by
  unfold lastPart child
  by_cases empty : directory = []
  · rw [if_pos empty, fromLast_eq_none.2 plain]
  · rw [if_neg empty, fromLast_append _ _ plain]
    rfl

theorem lastPart_alone {name : Text} (plain : '/' ∉ name) : lastPart name = name := by
  have here := lastPart_child [] plain
  rwa [child, if_pos rfl] at here

theorem extension_child (directory : Text) {name : Text} (plain : '/' ∉ name) :
    extension (child directory name) = extension name := by
  unfold extension
  rw [lastPart_child directory plain, lastPart_alone plain]

theorem directory_child {above name : Text} (plain : '/' ∉ name) (open_ : above.getLast? ≠ some '/') :
    directory (child above name) = above := by
  unfold directory
  rw [lastPart_child above plain]
  unfold child
  split
  case isTrue empty => simp [empty]
  case isFalse some =>
    obtain ⟨start, last, rfl⟩ : ∃ start last, above = start ++ [last] :=
      ⟨above.dropLast, above.getLast some, (List.dropLast_concat_getLast some).symm⟩
    have closed : last ≠ '/' := by
      intro same
      subst same
      exact open_ (by simp)
    have before : (start ++ [last] ++ '/' :: name).take
        ((start ++ [last] ++ '/' :: name).length - name.length) = start ++ [last] ++ ['/'] := by
      have length : (start ++ [last] ++ '/' :: name).length - name.length =
          (start ++ [last] ++ ['/']).length := by simp; omega
      rw [length, List.append_cons _ '/' name, List.take_left]
    rw [before]
    simp [Text.dropEndWhile, closed]

theorem extension_append {name : Text} (more : ∃ c ∈ name, c ≠ '.') {ending : Text}
    (plain : '/' ∉ name ++ '.' :: ending) (last : '.' ∉ ending) :
    extension (name ++ '.' :: ending) = '.' :: ending := by
  have dropped : (name ++ '.' :: ending).dropWhile (· = '.') =
      name.dropWhile (· = '.') ++ '.' :: ending := by
    rw [List.dropWhile_append, if_neg]
    simp only [List.isEmpty_iff, List.dropWhile_eq_nil_iff, decide_eq_true_eq]
    obtain ⟨c, member, other⟩ := more
    intro all
    exact other (all c member)
  unfold extension
  rw [lastPart_alone plain, dropped, fromLast_append _ _ last]
  rfl

theorem extension_dots_append {name : Text} (dots : ∀ c ∈ name, c = '.') {ending : Text}
    (plain : '/' ∉ name ++ ending) (last : '.' ∉ ending.dropWhile (· = '.')) :
    extension (name ++ ending) = [] := by
  have none : name.dropWhile (· = '.') = [] := by
    simpa [List.dropWhile_eq_nil_iff] using dots
  unfold extension
  rw [lastPart_alone plain, List.dropWhile_append, none]
  simp [fromLast_eq_none.2 last]

theorem extension_dots {name : Text} (plain : '/' ∉ name) (dots : ∀ c ∈ name, c = '.') :
    extension name = [] := by
  have alone : extension (name ++ []) = [] :=
    extension_dots_append dots (by rwa [List.append_nil]) (by simp)
  rwa [List.append_nil] at alone

end Relative

namespace Name

theorem text_ne_nil (name : Name) : name.text ≠ [] := name.isName.1

theorem slash_not_mem (name : Name) : '/' ∉ name.text := name.isName.2.2.2.1

end Name

/-- The name relative to a directory of what the names lead down to from there. -/
def relative (names : Location) : Text := ['/'].intercalate (names.map Name.text)

def Path.below (p : Path) (names : Location) : Path :=
  { p with parts := p.parts ++ names.map Name.text }

@[simp] theorem Path.below_nil (p : Path) : p.below [] = p := by
  simp [Path.below]

theorem Path.below_concat (p : Path) (names : Location) (name : Name) :
    p.below (names ++ [name]) = (p.below names).child name.text := by
  simp [Path.below, Path.child]

@[simp] theorem relative_nil : relative [] = [] := rfl

theorem relative_ne_nil {names : Location} (some : names ≠ []) : relative names ≠ [] := by
  cases names with
  | nil => exact absurd rfl some
  | cons first rest =>
    unfold relative
    cases rest with
    | nil => simpa using first.text_ne_nil
    | cons next rest => simp [List.intercalate_cons_cons]

theorem relative_concat (names : Location) (name : Name) :
    relative (names ++ [name]) = Relative.child (relative names) name.text := by
  by_cases empty : names = []
  · subst empty
    simp [relative, Relative.child]
  · rw [Relative.child, if_neg (relative_ne_nil empty)]
    unfold relative
    rw [List.map_append, List.map_singleton,
      Text.intercalate_append_of_ne_nil _ (by simpa using empty) (by simp)]
    simp

theorem relative_begins (names more : Location) : relative names <+: relative (names ++ more) := by
  induction more using List.reverseRecOn with
  | nil => simp
  | append_singleton more name ih =>
    rw [← List.append_assoc, relative_concat]
    apply ih.trans
    unfold Relative.child
    split
    · rename_i empty
      simp [empty]
    · exact List.prefix_append _ _

theorem relative_getLast? (names : Location) : (relative names).getLast? ≠ some '/' := by
  induction names using List.reverseRecOn with
  | nil => simp
  | append_singleton names name =>
    have plain : name.text.getLast? ≠ some '/' := by
      intro last
      exact name.slash_not_mem (List.mem_of_getLast? last)
    rw [relative_concat]
    unfold Relative.child
    split
    · exact plain
    · rw [List.append_cons, List.getLast?_append, Option.or_of_isSome]
      · exact plain
      · simpa using name.text_ne_nil

theorem directory_relative (names : Location) (name : Name) :
    Relative.directory (relative (names ++ [name])) = relative names := by
  rw [relative_concat]
  exact Relative.directory_child name.slash_not_mem (relative_getLast? names)

theorem extension_relative (names : Location) (name : Name) :
    Relative.extension (relative (names ++ [name])) = Relative.extension name.text := by
  rw [relative_concat]
  exact Relative.extension_child _ name.slash_not_mem

theorem Config.excludes_iff {c : Config} {rel : Text} :
    c.excludes rel = true ↔ ∃ start ∈ c.excluded, start <+: rel := by
  simp [excludes, Beginning.matchesAny]

theorem Config.excludes_below {c : Config} {names : Location} (h : c.excludes (relative names) = true)
    (more : Location) : c.excludes (relative (names ++ more)) = true := by
  rw [excludes_iff] at h ⊢
  obtain ⟨start, member, begins⟩ := h
  exact ⟨start, member, begins.trans (relative_begins names more)⟩

theorem Config.eligible?_relative {c : Config} {names : Location} {name : Name} :
    c.eligible? (relative (names ++ [name])) =
      if c.excludes (relative names) then none
      else c.registry.get? (Relative.extension name.text) := by
  rw [eligible?, directory_relative, header?, extension_relative]

namespace Store

def Descends (s : Store) (home names : Location) : Prop :=
  ∀ upper, upper <+: names → s.IsDirectory (home ++ upper)

theorem Descends.inside {s : Store} {home names : Location} (h : s.Descends home names) :
    s.IsDirectory (home ++ names) :=
  h names (List.prefix_refl names)

theorem descends_nil {s : Store} {home : Location} : s.Descends home [] ↔ s.IsDirectory home := by
  constructor
  · intro h
    simpa using h.inside
  · intro inside upper before
    rw [List.prefix_nil.1 before, List.append_nil]
    exact inside

theorem descends_concat {s : Store} {home names : Location} {name : Name} :
    s.Descends home (names ++ [name]) ↔
      s.Descends home names ∧ s.IsDirectory (home ++ names ++ [name]) := by
  constructor
  · intro h
    constructor
    · intro upper before
      exact h upper (before.trans (List.prefix_append _ _))
    · have inside := h.inside
      rwa [← List.append_assoc] at inside
  · intro given upper before
    obtain ⟨h, inside⟩ := given
    rcases List.prefix_concat_iff.1 before with rfl | before
    · rwa [← List.append_assoc]
    · exact h upper before

theorem Reaches.below {s : Store} {p : Path} {spent : Nat} {home names : Location}
    (h : Reaches s p spent home) (down : s.Descends home names) :
    Reaches s (p.below names) spent (home ++ names) := by
  induction names using List.reverseRecOn with
  | nil => simpa using h
  | append_singleton names name ih =>
    obtain ⟨above, inside⟩ := descends_concat.1 down
    rw [Path.below_concat, ← List.append_assoc]
    exact (ih above).child inside

/-- An entry that is no directory, with directories all the way down to it. -/
structure Tip (s : Store) (home names : Location) : Prop where
  named : names ≠ []
  down : s.Descends home names.dropLast
  held : ∃ node, s.get? (home ++ names) = some node ∧ node.kind ≠ .directory

namespace Tip

variable {s : Store} {home names directory : Location}

theorem concat (h : Tip s home names) : ∃ above name, names = above ++ [name] :=
  ⟨_, _, (List.dropLast_concat_getLast h.named).symm⟩

theorem not_isDirectory (h : Tip s home names) : ¬ s.IsDirectory (home ++ names) := by
  intro inside
  obtain ⟨node, held, kind⟩ := h.held
  rw [inside] at held
  cases held
  exact kind rfl

theorem enters (h : Tip s home names) (inside : s.IsDirectory (home ++ directory))
    (under : directory <+: names) : directory <+: names.dropLast := by
  obtain ⟨above, name, rfl⟩ := h.concat
  rw [List.dropLast_concat]
  rcases List.prefix_concat_iff.1 under with same | before
  · rw [same] at inside
    exact absurd inside h.not_isDirectory
  · exact before

theorem next (h : Tip s home names) (under : directory <+: names.dropLast) :
    ∃ name node, directory ++ [name] <+: names ∧
      s.get? (home ++ directory ++ [name]) = some node := by
  obtain ⟨above, name, rfl⟩ := h.concat
  have down := h.down
  rw [List.dropLast_concat] at under down
  obtain ⟨rest, rfl⟩ := under
  cases rest with
  | nil =>
    obtain ⟨node, held, _⟩ := h.held
    rw [List.append_nil, ← List.append_assoc] at held
    exact ⟨name, node, by simp, held⟩
  | cons name' rest =>
    have begins : directory ++ [name'] <+: directory ++ name' :: rest := ⟨rest, by simp⟩
    refine ⟨name', .directory, begins.trans (List.prefix_append _ _), ?_⟩
    rw [List.append_assoc]
    exact down _ begins

theorem names_eq (h : Tip s home names) (outside : ¬ s.IsDirectory (home ++ directory))
    (under : directory <+: names) : names = directory := by
  obtain ⟨above, name, rfl⟩ := h.concat
  have down := h.down
  rw [List.dropLast_concat] at down
  rcases List.prefix_concat_iff.1 under with same | before
  · exact same.symm
  · exact absurd (down directory before) outside

end Tip

end Store

end LicenseHeaders
