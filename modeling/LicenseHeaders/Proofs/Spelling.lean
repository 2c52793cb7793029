import Mathlib.Data.List.Basic
import LicenseHeaders.Proofs.Descent

/-!
How names on the way down are spelled. Cut at its slashes, a relative name gives the names back, and
written behind the text of a root, however that is spelled, it gives the path of what the names lead
to: slashes at the end of the root count once, and an empty root adds nothing.
-/
namespace LicenseHeaders

theorem splitOn_relative {names : Location} (some : names ≠ []) :
    (relative names).splitOn '/' = names.map Name.text := by
  unfold relative
  apply List.splitOn_intercalate
  · intro part member
    obtain ⟨name, _, rfl⟩ := List.mem_map.1 member
    exact name.slash_not_mem
  · simpa using some

theorem relative_head? (names : Location) : (relative names).head? ≠ some '/' := by
  cases names with
  | nil => simp
  | cons first rest =>
    obtain ⟨more, eq⟩ := relative_begins [first] rest
    obtain ⟨c, letters, text⟩ := List.exists_cons_of_ne_nil first.text_ne_nil
    have alone : relative [first] = c :: letters := by simpa [relative] using text
    have here : c ∈ first.text := by simp [text]
    rw [List.singleton_append, alone] at eq
    rw [← eq, List.cons_append, List.head?_cons, Ne, Option.some.injEq]
    intro slash
    exact first.slash_not_mem (slash ▸ here)

namespace Path

/-- A relative name written behind the text of a root, as both are spelled. -/
def joined (root rel : Text) : Text := if root = [] then rel else behind root rel

theorem anchorOf_cons (a b c : Char) (more : Text) :
    anchorOf (a :: b :: c :: more) =
      if a ≠ '/' then .base else if b = '/' ∧ c ≠ '/' then .doubleRoot else .root := by
  by_cases first : a = '/'
  · by_cases second : b = '/'
    · by_cases third : c = '/'
      · simp [anchorOf, first, second, third]
      · simp [anchorOf, first, second, third]
    · simp [anchorOf, first, second]
  · simp [anchorOf, first]

theorem anchorOf_append {root : Text} (written : root ≠ []) {rel : Text}
    (plain : root.getLast? ≠ some '/' ∨ rel.head? ≠ some '/') :
    anchorOf (root ++ rel) = anchorOf root := by
  cases rel with
  | nil => rw [List.append_nil]
  | cons d rel =>
    match root, written with
    | [a], _ =>
      have other : a = '/' → d ≠ '/' := by simpa [imp_iff_not_or] using plain
      by_cases slash : a = '/'
      · simp [anchorOf, slash, other slash]
      · simp [anchorOf, slash]
    | [a, b], _ =>
      have other : b = '/' → d ≠ '/' := by simpa [imp_iff_not_or] using plain
      by_cases slash : a = '/'
      · by_cases slash' : b = '/'
        · simp [anchorOf, slash, slash', other slash']
        · simp [anchorOf, slash, slash']
      · simp [anchorOf, slash]
    | a :: b :: c :: more, _ => rw [List.cons_append, List.cons_append, List.cons_append,
        anchorOf_cons, anchorOf_cons]

theorem partsOf_append (before after : Text) :
    partsOf (before ++ '/' :: after) = partsOf before ++ partsOf after := by
  unfold partsOf
  rw [List.splitOn_append_cons_self, List.filter_append]

theorem partsOf_relative {names : Location} (some : names ≠ []) :
    partsOf (relative names) = names.map Name.text := by
  unfold partsOf
  rw [splitOn_relative some, List.filter_eq_self]
  intro part member
  obtain ⟨name, _, rfl⟩ := List.mem_map.1 member
  simp [name.isName.1, name.isName.2.1]

theorem ofText_joined (root : Text) {names : Location} (some : names ≠ []) :
    ofText (joined root (relative names)) = (ofText root).below names := by
  have plain := relative_head? names
  unfold joined
  by_cases empty : root = []
  · subst empty
    have base : anchorOf (relative names) = .base := by
      unfold anchorOf
      split
      · simp_all
      · simp_all
      · simp_all
      · rfl
    simp only [if_true, ofText, base, partsOf_relative some]
    rfl
  · rw [if_neg empty]
    unfold behind
    split
    case isTrue closed =>
      obtain ⟨start, rfl⟩ := List.getLast?_eq_some_iff.1 closed
      have parts : partsOf (start ++ ['/']) = partsOf start := by
        rw [partsOf_append]
        simp [partsOf]
      simp only [ofText, below, anchorOf_append empty (.inr plain), parts]
      rw [List.append_assoc, List.singleton_append, partsOf_append, partsOf_relative some]
    case isFalse open_ =>
      simp only [ofText, below, anchorOf_append empty (.inl open_), partsOf_append,
        partsOf_relative some]

example : joined "a/" "b/c" = "a/b/c" ∧ joined "/" "b" = "/b" ∧ joined "" "b" = "b" := by decide

end Path

end LicenseHeaders
