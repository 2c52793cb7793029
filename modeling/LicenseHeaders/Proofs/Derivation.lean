import LicenseHeaders.Registry
import Mathlib.Data.List.Induction
import Mathlib.Data.List.Nodup

/-!
The registry that is derived from two templates. It is written one entry after the other, and an
entry that comes again is put over the old one. No two languages share an extension, so such an entry
says what the old one said, and the registry has for each extension the header of the one language
that owns it. The extensions stand in the order in which the languages came first.
-/
namespace LicenseHeaders

section FirstOccurrences

variable {α β : Type} [BEq α] [LawfulBEq α] [BEq β] [LawfulBEq β]

theorem eraseDups_append_of_known {earlier later : List α} (known : ∀ a ∈ later, a ∈ earlier) :
    (earlier ++ later).eraseDups = earlier.eraseDups := by
  have nothing : later.removeAll earlier = [] :=
    List.filter_eq_nil_iff.2 fun a member => by simp [known a member]
  rw [List.eraseDups_append, nothing, List.eraseDups_nil, List.append_nil]

theorem eraseDups_of_nodup {as : List α} (once : as.Nodup) : as.eraseDups = as := by
  induction as with
  | nil => rfl
  | cons a as ih =>
    obtain ⟨alone, once⟩ := List.nodup_cons.1 once
    have kept : as.filter (fun b => !b == a) = as := by
      refine List.filter_eq_self.2 ?_
      intro b member
      have differs : b ≠ a := fun same => alone (same ▸ member)
      simp [differs]
    rw [List.eraseDups_cons, kept, ih once]

theorem eraseDups_append_of_new {earlier later : List α} (once : later.Nodup)
    (new : ∀ a ∈ later, a ∉ earlier) :
    (earlier ++ later).eraseDups = earlier.eraseDups ++ later := by
  have all : later.removeAll earlier = later :=
    List.filter_eq_self.2 fun a member => by simp [new a member]
  rw [List.eraseDups_append, all, eraseDups_of_nodup once]

theorem nodup_eraseDups (as : List α) : as.eraseDups.Nodup := by
  induction as using List.reverseRecOn with
  | nil => exact .nil
  | append_singleton as a ih =>
    have single := List.nodup_singleton a
    by_cases known : a ∈ as
    · rw [eraseDups_append_of_known (by simpa using known)]
      exact ih
    · rw [eraseDups_append_of_new single (by simpa using known)]
      exact ih.append single (by simpa using known)

theorem eraseDups_flatMap {f : α → List β} (once : ∀ a, (f a).Nodup)
    (apart : ∀ {a b x}, x ∈ f a → x ∈ f b → a = b) (as : List α) :
    (as.flatMap f).eraseDups = as.eraseDups.flatMap f := by
  induction as using List.reverseRecOn with
  | nil => rfl
  | append_singleton as a ih =>
    rw [List.flatMap_append, List.flatMap_singleton]
    by_cases known : a ∈ as
    · have brought : ∀ x ∈ f a, x ∈ as.flatMap f := fun x own =>
        List.mem_flatMap.2 ⟨a, known, own⟩
      rw [eraseDups_append_of_known brought, eraseDups_append_of_known (by simpa using known), ih]
    · have fresh : ∀ x ∈ f a, x ∉ as.flatMap f := by
        intro x own member
        obtain ⟨b, there, other⟩ := List.mem_flatMap.1 member
        rw [apart own other] at known
        exact known there
      rw [eraseDups_append_of_new (once a) fresh, ih,
        eraseDups_append_of_new (List.nodup_singleton a) (by simpa using known),
        List.flatMap_append, List.flatMap_singleton]

end FirstOccurrences

namespace Registry

theorem ofList_concat (entries : List (Text × Header)) (entry : Text × Header) :
    ofList (entries ++ [entry]) = (ofList entries).insert entry.1 entry.2 :=
  List.foldl_concat ..

theorem extensions_ofList (entries : List (Text × Header)) :
    (ofList entries).extensions = (entries.map Prod.fst).eraseDups := by
  induction entries using List.reverseRecOn with
  | nil => rfl
  | append_singleton entries entry ih =>
    rw [ofList_concat, extensions_insert, ih, List.map_append, List.map_singleton]
    by_cases known : entry.1 ∈ entries.map Prod.fst
    · rw [if_pos (List.mem_eraseDups.2 known), eraseDups_append_of_known (by simpa using known)]
    · rw [if_neg (mt List.mem_eraseDups.1 known),
        eraseDups_append_of_new (List.nodup_singleton _) (by simpa using known)]

theorem get?_ofList_eq_some_iff {entries : List (Text × Header)} {ext : Text} {header : Header}
    (alike : ∀ a ∈ entries, ∀ b ∈ entries, a.1 = b.1 → a.2 = b.2) :
    (ofList entries).get? ext = some header ↔ (ext, header) ∈ entries := by
  induction entries using List.reverseRecOn with
  | nil => simp [ofList, empty, get?]
  | append_singleton entries entry ih =>
    have last : entry ∈ entries ++ [entry] := by simp
    rw [ofList_concat, get?_insert]
    by_cases own : ext = entry.1
    · subst own
      rw [if_pos rfl, Option.some.injEq]
      constructor
      · rintro rfl
        exact last
      · intro there
        exact alike entry last _ there rfl
    · have before := ih fun a here b there =>
        alike a (List.mem_append_left _ here) b (List.mem_append_left _ there)
      have other : (ext, header) ≠ entry := by
        rintro rfl
        exact own rfl
      rw [if_neg own, before]
      simp [other]

theorem get?_derive_eq_some_iff {license modeline : Text} {languages : List Language} {ext : Text}
    {header : Header} :
    (derive license modeline languages).get? ext = some header ↔
      ∃ l ∈ languages, ext ∈ l.extensions ∧ header = headerFor license modeline l := by
  have mem_iff : ∀ entry : Text × Header,
      (entry ∈ languages.flatMap fun l => l.extensions.map (·, headerFor license modeline l)) ↔
        ∃ l ∈ languages, entry.1 ∈ l.extensions ∧ entry.2 = headerFor license modeline l := by
    intro entry
    simp only [List.mem_flatMap, List.mem_map]
    constructor
    · rintro ⟨l, listed, ext, own, rfl⟩
      exact ⟨l, listed, own, rfl⟩
    · rintro ⟨l, listed, own, eq⟩
      exact ⟨l, listed, entry.1, own, Prod.ext rfl eq.symm⟩
  rw [derive, get?_ofList_eq_some_iff, mem_iff]
  intro a here b there same
  obtain ⟨l, _, own, eq⟩ := (mem_iff a).1 here
  obtain ⟨l', _, own', eq'⟩ := (mem_iff b).1 there
  rw [eq, eq', Language.eq_of_mem_extensions own (same ▸ own')]

theorem extensions_derive (license modeline : Text) (languages : List Language) :
    (derive license modeline languages).extensions =
      languages.eraseDups.flatMap Language.extensions := by
  have written : (languages.flatMap fun l =>
      l.extensions.map (·, headerFor license modeline l)).map Prod.fst =
        languages.flatMap Language.extensions := by
    simp [List.map_flatMap, Function.comp_def]
  rw [derive, extensions_ofList, written]
  exact eraseDups_flatMap Language.nodup_extensions Language.eq_of_mem_extensions languages

/-- The registry of some languages knows an extension if and only if its language is one of them, and
has that language's comments for it. Its extensions are all different, in the order in which the
languages came first, each language's own together. The registry of all languages knows what is
found by searching them. -/
theorem derive_as_looked_up (license modeline : Text) :
    (∀ languages : List Language,
      let r := derive license modeline languages
      (∀ ext, ext ∈ r.extensions ↔ ∃ l ∈ languages, Language.ofExtension? ext = some l) ∧
      (∀ ext header, r.get? ext = some header ↔ ∃ l ∈ languages,
        Language.ofExtension? ext = some l ∧ header = ⟨l.comment license, l.comment modeline⟩) ∧
      r.extensions.Nodup ∧ r.extensions = languages.eraseDups.flatMap Language.extensions) ∧
    ∀ ext, (derive license modeline Language.all).get? ext =
      (Language.ofExtension? ext).map fun l => ⟨l.comment license, l.comment modeline⟩ := by
  have found : ∀ (languages : List Language) (ext : Text) (header : Header),
      (derive license modeline languages).get? ext = some header ↔ ∃ l ∈ languages,
        Language.ofExtension? ext = some l ∧ header = ⟨l.comment license, l.comment modeline⟩ := by
    intro languages ext header
    rw [get?_derive_eq_some_iff]
    simp only [Language.ofExtension?_eq_some_iff, headerFor]
  constructor
  · intro languages
    refine ⟨?_, found languages, ?_, extensions_derive license modeline languages⟩
    · intro ext
      rw [extensions_derive, List.mem_flatMap]
      simp only [List.mem_eraseDups, Language.ofExtension?_eq_some_iff]
    · rw [derive, extensions_ofList]
      exact nodup_eraseDups _
  · intro ext
    refine Option.ext fun header => ?_
    rw [found, Option.map_eq_some_iff]
    simp only [Language.mem_all, true_and, eq_comm]

example : (derive "// L" [] [.lua, .cFamily, .lua]).extensions =
    ([".lua", ".cpp", ".c", ".h", ".hpp"] : List Text) := by
  decide

end Registry

end LicenseHeaders
