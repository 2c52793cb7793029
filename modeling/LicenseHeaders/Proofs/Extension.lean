import LicenseHeaders.Proofs.UntouchedFiles

/-!
The extension of a relative name. It is what stands from the last dot of the last part on, provided
that the part has something else than dots before it; where no such dot is, the extension is empty.
There is exactly one way to cut a name like that, and the directories above do not matter to it.
-/
namespace LicenseHeaders

namespace Relative

/-- The last part of a name: no slash is in it, and one is before it unless it is the whole name. -/
def EndsIn (rel part : Text) : Prop :=
  '/' ∉ part ∧ (rel = part ∨ ∃ above, rel = above ++ '/' :: part)

/-- The name is cut before the dot with which its extension begins. -/
structure CutsAt (rel stem ext : Text) : Prop where
  whole : rel = stem ++ ext
  dotted : ∃ letters, ext = '.' :: letters ∧ '.' ∉ letters ∧ '/' ∉ letters
  named : ∃ part, EndsIn stem part ∧ ∃ c ∈ part, c ≠ '.'

def IsExtension (rel ext : Text) : Prop :=
  (∃ stem, CutsAt rel stem ext) ∨ ext = [] ∧ ¬ ∃ stem other, CutsAt rel stem other

theorem eq_append_of_fromLast {mark : Char} {t found : Text} (h : fromLast mark t = some found) :
    ∃ before after, t = before ++ mark :: after ∧ mark ∉ after ∧ found = mark :: after := by
  induction t generalizing found with
  | nil => cases h
  | cons c rest ih =>
    rw [fromLast] at h
    split at h
    · rename_i later
      cases h
      obtain ⟨before, after, rfl, last, rfl⟩ := ih later
      exact ⟨c :: before, after, rfl, last, rfl⟩
    · rename_i none
      split at h
      · rename_i same
        cases h
        subst same
        exact ⟨[], rest, rfl, fromLast_eq_none.1 none, rfl⟩
      · cases h

theorem lastPart_append (above : Text) {part : Text} (plain : '/' ∉ part) :
    lastPart (above ++ '/' :: part) = part := by
  rw [lastPart, fromLast_append '/' above plain]
  rfl

theorem EndsIn.lastPart_eq {rel part : Text} (h : EndsIn rel part) : lastPart rel = part := by
  obtain ⟨plain, rfl | ⟨above, rfl⟩⟩ := h
  · exact lastPart_alone plain
  · exact lastPart_append above plain

theorem endsIn_lastPart (rel : Text) : EndsIn rel (lastPart rel) := by
  cases found : fromLast '/' rel with
  | none =>
    have plain := fromLast_eq_none.1 found
    rw [lastPart_alone plain]
    exact ⟨plain, .inl rfl⟩
  | some tail =>
    obtain ⟨above, part, rfl, plain, rfl⟩ := eq_append_of_fromLast found
    rw [lastPart_append above plain]
    exact ⟨plain, .inr ⟨above, rfl⟩⟩

theorem EndsIn.append {stem part ending : Text} (h : EndsIn stem part) (plain : '/' ∉ ending) :
    EndsIn (stem ++ ending) (part ++ ending) := by
  obtain ⟨slashless, rfl | ⟨above, rfl⟩⟩ := h
  · exact ⟨by simp [slashless, plain], .inl rfl⟩
  · exact ⟨by simp [slashless, plain], .inr ⟨above, by simp⟩⟩

theorem lastPart_below (above rel : Text) : lastPart (above ++ '/' :: rel) = lastPart rel := by
  obtain ⟨plain, whole | ⟨middle, whole⟩⟩ := endsIn_lastPart rel
  · rw [lastPart_append above (whole ▸ plain), ← whole]
  · have split : above ++ '/' :: rel = (above ++ '/' :: middle) ++ '/' :: lastPart rel := by
      rw [List.append_assoc, List.cons_append, ← whole]
    rw [split, lastPart_append _ plain]

theorem extension_lastPart (rel : Text) : extension (lastPart rel) = extension rel := by
  rw [extension, extension, lastPart_alone (endsIn_lastPart rel).1]

theorem EndsIn.extension_eq {rel part letters : Text} (h : EndsIn rel (part ++ '.' :: letters))
    (named : ∃ c ∈ part, c ≠ '.') (last : '.' ∉ letters) : extension rel = '.' :: letters := by
  rw [← extension_lastPart, h.lastPart_eq]
  exact extension_append named h.1 last

theorem CutsAt.extension_eq {rel stem ext : Text} (h : CutsAt rel stem ext) : extension rel = ext := by
  obtain ⟨rfl, ⟨letters, rfl, last, plain⟩, part, ends, named⟩ := h
  exact (ends.append (by simp [plain])).extension_eq named last

theorem exists_cutsAt {rel : Text} (written : extension rel ≠ []) :
    ∃ stem, CutsAt rel stem (extension rel) := by
  cases found : fromLast '.' ((lastPart rel).dropWhile (· = '.')) with
  | none => simp [extension, found] at written
  | some ext =>
    have same : extension rel = ext := by rw [extension, found, Option.getD_some]
    obtain ⟨before, letters, rest, last, rfl⟩ := eq_append_of_fromLast found
    let dots := (lastPart rel).takeWhile (· = '.')
    have part : lastPart rel = (dots ++ before) ++ '.' :: letters := by
      rw [List.append_assoc, ← rest, List.takeWhile_append_dropWhile]
    have named : ∃ c ∈ dots ++ before, c ≠ '.' := by
      have first := List.head?_dropWhile_not (· = '.') (lastPart rel)
      rw [rest] at first
      cases before with
      | nil => simp at first
      | cons c before => exact ⟨c, by simp, by simpa using first⟩
    obtain ⟨plain, whole⟩ := endsIn_lastPart rel
    rw [part] at plain whole
    simp only [List.mem_append, List.mem_cons, not_or] at plain
    have slashless : '/' ∉ dots ++ before := by simp [plain.1]
    rw [same]
    rcases whole with whole | ⟨above, whole⟩
    · exact ⟨dots ++ before, whole, ⟨letters, rfl, last, plain.2.2⟩, _, ⟨slashless, .inl rfl⟩, named⟩
    · exact ⟨above ++ '/' :: (dots ++ before), by rw [whole]; simp, ⟨letters, rfl, last, plain.2.2⟩, _,
        ⟨slashless, .inr ⟨above, rfl⟩⟩, named⟩

theorem isExtension_iff {rel ext : Text} : IsExtension rel ext ↔ extension rel = ext := by
  constructor
  · rintro (⟨stem, cut⟩ | ⟨rfl, uncut⟩)
    · exact cut.extension_eq
    · by_contra written
      obtain ⟨stem, cut⟩ := exists_cutsAt written
      exact uncut ⟨stem, _, cut⟩
  · rintro rfl
    by_cases empty : extension rel = []
    · refine .inr ⟨empty, ?_⟩
      rintro ⟨stem, other, cut⟩
      obtain ⟨letters, dotted, _⟩ := cut.dotted
      rw [cut.extension_eq, dotted] at empty
      cases empty
    · exact .inl (exists_cutsAt empty)

end Relative

theorem Language.dotted_of_extension {l : Language} {ext : Text} (own : ext ∈ l.extensions) :
    ∃ letters, ext = '.' :: letters ∧ '.' ∉ letters ∧ '/' ∉ letters := by
  have all : ∀ ext ∈ l.extensions,
      ext.head? = some '.' ∧ '.' ∉ ext.drop 1 ∧ '/' ∉ ext.drop 1 := by
    cases l <;> decide
  obtain ⟨first, dot, slash⟩ := all ext own
  obtain ⟨letters, rfl⟩ := List.head?_eq_some_iff.1 first
  exact ⟨letters, rfl, dot, slash⟩

theorem Relative.extension_mem_iff {rel : Text} {l : Language} :
    extension rel ∈ l.extensions ↔
      ∃ stem, ∃ ext ∈ l.extensions, EndsIn rel (stem ++ ext) ∧ ∃ c ∈ stem, c ≠ '.' := by
  constructor
  · intro own
    obtain ⟨letters, dotted, _⟩ := Language.dotted_of_extension own
    have written : extension rel ≠ [] := by simp [dotted]
    obtain ⟨_, cut⟩ := exists_cutsAt written
    obtain ⟨part, ends, named⟩ := cut.named
    obtain ⟨_, dotted', _, plain⟩ := cut.dotted
    have slashFree : '/' ∉ extension rel := by
      rw [dotted']
      simpa using plain
    have whole := ends.append slashFree
    rw [← cut.whole] at whole
    exact ⟨part, _, own, whole, named⟩
  · rintro ⟨stem, ext, own, ends, named⟩
    obtain ⟨letters, rfl, last, _⟩ := Language.dotted_of_extension own
    rwa [ends.extension_eq named last]

namespace Config

theorem header?_of_draft_isSome_iff {d : Draft} (derived : d.registry = none) {rel : Text} :
    ((ofDraft d).header? rel).isSome ↔ ∃ l : Language, Relative.extension rel ∈ l.extensions := by
  rw [Option.isSome_iff_exists]
  constructor
  · rintro ⟨header, known⟩
    obtain ⟨l, own, _⟩ := (header?_of_draft_eq_some_iff derived).1 known
    exact ⟨l, own⟩
  · rintro ⟨l, own⟩
    exact ⟨_, header?_of_draft derived own⟩

/-- The header of a file is that of its one extension, wherever the file lies. Where the headers are
derived from the templates, a file has one if and only if its last part is one of the extensions of
the languages with something in front of it that is not made of dots only. -/
theorem header?_by_extension :
    (∀ (c : Config) (rel : Text), ∃ ext, Relative.IsExtension rel ext ∧
      (∀ other, Relative.IsExtension rel other → other = ext) ∧
      c.header? rel = c.registry.get? ext) ∧
    (∀ (c : Config) (directory name : Text), c.header? (directory ++ '/' :: name) = c.header? name) ∧
    ∀ (d : Draft) (rel : Text), ((ofDraft { d with registry := none }).header? rel).isSome ↔
      ∃ (l : Language) (stem : Text), ∃ ext ∈ l.extensions,
        Relative.EndsIn rel (stem ++ ext) ∧ ∃ c ∈ stem, c ≠ '.' := by
  refine ⟨?_, ?_, ?_⟩
  · intro c rel
    refine ⟨Relative.extension rel, Relative.isExtension_iff.2 rfl, ?_, rfl⟩
    intro other h
    exact (Relative.isExtension_iff.1 h).symm
  · intro c directory name
    rw [header?, header?, ← Relative.extension_lastPart, Relative.lastPart_below,
      Relative.extension_lastPart]
  · intro d rel
    rw [header?_of_draft_isSome_iff rfl]
    simp only [Relative.extension_mem_iff]

end Config

end LicenseHeaders
