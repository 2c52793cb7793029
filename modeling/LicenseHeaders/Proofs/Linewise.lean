import LicenseHeaders.Language

/-!
Rewriting markers is done line by line. A language reads a template in one pass; what it makes of it
is the lines between the line feeds, each marked by itself. So line feeds stay where they are, texts
can be marked apart and put together, and a text in the comments of a language that does not start
them with two slashes is not changed by any other language.
-/
namespace LicenseHeaders

namespace Language

/-- The marker instead of two slashes at the start of one line. -/
def marked (marker line : Text) : Text :=
  if ['/', '/'] <+: line then marker ++ line.drop 2 else line

section Marking

variable (marker : Text)

theorem marked_of_plain {line : Text} (plain : ¬ ['/', '/'] <+: line) :
    marked marker line = line := if_neg plain

theorem marked_slashes (line : Text) : marked ['/', '/'] line = line := by
  unfold marked
  split
  case isTrue slashes =>
    obtain ⟨rest, rfl⟩ := slashes
    rfl
  case isFalse => rfl

theorem markFrom_inner {line : Text} (inner : '\n' ∉ line) (rest : Text) :
    markFrom marker false (line ++ rest) = line ++ markFrom marker false rest := by
  induction line with
  | nil => rfl
  | cons c line ih =>
    rw [List.mem_cons, not_or] at inner
    rw [List.cons_append, markFrom, decide_eq_false (Ne.symm inner.1), ih inner.2]
    · rfl
    · simp

theorem markFrom_feed (lineStart : Bool) (rest : Text) :
    markFrom marker lineStart ('\n' :: rest) = '\n' :: markFrom marker true rest := by
  rw [markFrom]
  · rfl
  · simp

theorem markFrom_plain {line rest : Text} (inner : '\n' ∉ line) (plain : ¬ ['/', '/'] <+: line)
    (ends : ∀ c, rest.head? = some c → c = '\n') :
    markFrom marker true (line ++ rest) = line ++ markFrom marker false rest := by
  cases line with
  | nil =>
    cases rest with
    | nil => rfl
    | cons c rest =>
      obtain rfl := ends c rfl
      rw [List.nil_append, List.nil_append, markFrom_feed, markFrom_feed]
  | cons c line =>
    rw [List.mem_cons, not_or] at inner
    have single : ∀ next, true = true → c = '/' → line ++ rest ≠ '/' :: next := by
      rintro next - rfl eq
      cases line with
      | nil =>
        have same := ends '/' (by simp [show rest = '/' :: next from eq])
        exact absurd same (by decide)
      | cons d line =>
        cases eq
        exact plain ⟨line, rfl⟩
    rw [List.cons_append, markFrom, decide_eq_false (Ne.symm inner.1),
      markFrom_inner marker inner.2]
    · rfl
    · exact single

theorem markFrom_line {line rest : Text} (inner : '\n' ∉ line)
    (ends : ∀ c, rest.head? = some c → c = '\n') :
    markFrom marker true (line ++ rest) = marked marker line ++ markFrom marker false rest := by
  by_cases slashes : ['/', '/'] <+: line
  · obtain ⟨line, rfl⟩ := slashes
    have behind : '\n' ∉ line := fun member => inner (List.mem_append_right _ member)
    have first : marked marker (['/', '/'] ++ line) = marker ++ line := by
      simp [marked]
    rw [first, List.append_assoc, List.append_assoc, ← markFrom_inner marker behind]
    rfl
  · rw [marked_of_plain marker slashes]
    exact markFrom_plain marker inner slashes ends

theorem markFrom_intercalate {lines : List Text} (inner : ∀ line ∈ lines, '\n' ∉ line) :
    markFrom marker true (['\n'].intercalate lines) =
      ['\n'].intercalate (lines.map (marked marker)) := by
  induction lines with
  | nil => rfl
  | cons line lines ih =>
    have here := inner line (List.mem_cons_self ..)
    cases lines with
    | nil =>
      have alone : markFrom marker true (line ++ []) = _ := markFrom_line marker here (by simp)
      simpa [markFrom] using alone
    | cons next lines =>
      have more := ih fun line member => inner line (List.mem_cons_of_mem _ member)
      rw [List.intercalate_cons_cons, List.append_assoc, List.singleton_append,
        markFrom_line marker here (by simp), markFrom_feed, more]
      simp [List.intercalate_cons_cons]

theorem markFrom_eq (t : Text) :
    markFrom marker true t = ['\n'].intercalate ((t.splitOn '\n').map (marked marker)) := by
  rw [← markFrom_intercalate marker fun line => Text.not_mem_of_mem_splitOn,
    List.intercalate_splitOn]

theorem count_markFrom {marker : Text} (inner : '\n' ∉ marker) (lineStart : Bool) (t : Text) :
    (markFrom marker lineStart t).count '\n' = t.count '\n' := by
  fun_induction markFrom marker lineStart t with
  | case1 rest ih =>
    rw [List.count_append, List.count_eq_zero.2 inner, ih]
    simp
  | case2 lineStart c rest _ ih => rw [List.count_cons, List.count_cons, ih]
  | case3 => rfl

end Marking

theorem feed_not_mem_marker (l : Language) : '\n' ∉ l.marker := by
  cases l <;> decide

theorem plain_marked {l : Language} (other : l ≠ .cFamily) (line : Text) :
    ¬ ['/', '/'] <+: marked l.marker line := by
  unfold marked
  split
  case isTrue =>
    cases l with
    | cFamily => exact absurd rfl other
    | _ => simp [marker]
  case isFalse plain => exact plain

theorem feed_not_mem_marked (l : Language) {line : Text} (inner : '\n' ∉ line) :
    '\n' ∉ marked l.marker line := by
  unfold marked
  split
  case isTrue =>
    rw [List.mem_append, not_or]
    exact ⟨l.feed_not_mem_marker, fun member => inner (List.mem_of_mem_drop member)⟩
  case isFalse => exact inner

theorem comment_eq (l : Language) (t : Text) :
    l.comment t = ['\n'].intercalate ((t.splitOn '\n').map (marked l.marker)) := by
  unfold comment
  split
  case isTrue slashes =>
    have unchanged : marked l.marker = id := by
      funext line
      rw [slashes]
      exact marked_slashes line
    rw [unchanged, List.map_id, List.intercalate_splitOn]
  case isFalse => exact markFrom_eq l.marker t

theorem plain_comment {l : Language} (other : l ≠ .cFamily) (t : Text) :
    ∀ line ∈ (l.comment t).splitOn '\n', ¬ ['/', '/'] <+: line := by
  intro line member
  rw [comment_eq, List.splitOn_intercalate '\n' _ (by simp [List.splitOn_ne_nil])] at member
  · obtain ⟨piece, _, rfl⟩ := List.mem_map.1 member
    exact plain_marked other piece
  · rintro _ member
    obtain ⟨piece, here, rfl⟩ := List.mem_map.1 member
    exact feed_not_mem_marked l (Text.not_mem_of_mem_splitOn here)

theorem comment_of_plain (l : Language) {t : Text}
    (plain : ∀ line ∈ t.splitOn '\n', ¬ ['/', '/'] <+: line) : l.comment t = t := by
  have unchanged : (t.splitOn '\n').map (marked l.marker) = (t.splitOn '\n').map id :=
    List.map_congr_left fun line member => marked_of_plain l.marker (plain line member)
  rw [comment_eq, unchanged, List.map_id, List.intercalate_splitOn]

theorem comment_append (l : Language) (before after : Text) :
    l.comment (before ++ '\n' :: after) = l.comment before ++ '\n' :: l.comment after := by
  rw [comment_eq, List.splitOn_append_cons_self, List.map_append,
    Text.intercalate_append_of_ne_nil ['\n'] (by simp [List.splitOn_ne_nil])
      (by simp [List.splitOn_ne_nil]),
    ← comment_eq, ← comment_eq, List.append_assoc, List.singleton_append]

theorem count_comment (l : Language) (t : Text) : (l.comment t).count '\n' = t.count '\n' := by
  unfold comment
  split
  case isTrue => rfl
  case isFalse => exact count_markFrom l.feed_not_mem_marker true t

/-- What a language makes of a text is its lines, each marked by itself. So it can be made piece by
piece, as many lines come out as went in, and no language changes what another one made, the
C family's aside. -/
theorem comment_linewise (l : Language) :
    (∀ t, l.comment t = ['\n'].intercalate ((t.splitOn '\n').map (marked l.marker))) ∧
    (∀ before after,
      l.comment (before ++ '\n' :: after) = l.comment before ++ '\n' :: l.comment after) ∧
    (∀ t, (l.comment t).count '\n' = t.count '\n') ∧
    (l ≠ .cFamily → ∀ t,
      (∀ line ∈ (l.comment t).splitOn '\n', ¬ ['/', '/'] <+: line) ∧
      ∀ other : Language, other.comment (l.comment t) = l.comment t) := by
  refine ⟨comment_eq l, comment_append l, count_comment l, ?_⟩
  intro own t
  have plain := plain_comment own t
  exact ⟨plain, fun other => other.comment_of_plain plain⟩

/-- A third slash stays, a carriage return does not end the line, and assembly finds no marker in
what Lua has made. -/
theorem comment_linewise_lua :
    lua.comment "///\n//\r//" = "--/\n--\r//" ∧
      assembly.comment (lua.comment "///\n//\r//") = lua.comment "///\n//\r//" := by
  refine ⟨?_, ((comment_linewise lua).2.2.2 (by decide) _).2 assembly⟩
  rw [(comment_linewise lua).1]
  decide

end Language

end LicenseHeaders
