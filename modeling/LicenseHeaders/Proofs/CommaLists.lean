import Mathlib.Data.List.DropRight
import Mathlib.Data.List.Induction
import LicenseHeaders.Environment

/-!
Lists written with commas, read and written again. The fields between the commas are read one by
one, each without the blanks around it, and those with nothing but blanks in them are passed over.
So every text is a list of items with blanks around them, and it says nothing but which items these
are and in which order.
-/
namespace LicenseHeaders

namespace Text

theorem dropEndWhile_eq_rdropWhile (p : Char → Bool) (t : Text) : dropEndWhile p t = t.rdropWhile p :=
  rfl

theorem dropEndWhile_append {p : Char → Bool} (t : Text) {rest : Text} (all : ∀ c ∈ rest, p c = true) :
    dropEndWhile p (t ++ rest) = dropEndWhile p t := by
  induction rest using List.reverseRecOn with
  | nil => rw [List.append_nil]
  | append_singleton rest c ih =>
    rw [← List.append_assoc, dropEndWhile_eq_rdropWhile,
      List.rdropWhile_concat_pos _ _ _ (all c (by simp)), ← dropEndWhile_eq_rdropWhile]
    exact ih fun d member => all d (by simp [member])

theorem dropEndWhile_eq_self {p : Char → Bool} {t : Text}
    (stays : ∀ c, t.getLast? = some c → p c = false) : dropEndWhile p t = t := by
  rw [dropEndWhile_eq_rdropWhile, List.rdropWhile_eq_self_iff]
  intro written
  simp [stays _ (List.getLast?_eq_some_getLast written)]

theorem getLast?_dropEndWhile {p : Char → Bool} {t : Text} {c : Char}
    (last : (dropEndWhile p t).getLast? = some c) : p c = false := by
  have written : t.rdropWhile p ≠ [] := by
    intro none
    rw [dropEndWhile_eq_rdropWhile, none] at last
    cases last
  have stays := List.rdropWhile_last_not p t written
  rw [dropEndWhile_eq_rdropWhile, List.getLast?_eq_some_getLast written, Option.some.injEq] at last
  rw [last] at stays
  simpa using stays

structure Tight (t : Text) : Prop where
  written : t ≠ []
  starts : ∀ c, t.head? = some c → isBlank c = false
  ends : ∀ c, t.getLast? = some c → isBlank c = false

def Blank (t : Text) : Prop := ∀ c ∈ t, isBlank c = true

theorem trim_eq_nil_iff {t : Text} : trim t = [] ↔ Blank t := by
  rw [trim, dropEndWhile_eq_rdropWhile, List.rdropWhile_eq_nil_iff]
  constructor
  · intro all c member
    by_contra other
    rw [← List.takeWhile_append_dropWhile (p := isBlank) (l := t), List.mem_append] at member
    rcases member with front | rest
    · exact other (List.mem_takeWhile_imp front)
    · exact other (all c rest)
  · intro blank c member
    exact blank c ((List.dropWhile_suffix _).mem member)

theorem trim_padded {before item after : Text} (front : Blank before) (tight : Tight item)
    (back : Blank after) : trim (before ++ item ++ after) = item := by
  obtain ⟨first, rest, rfl⟩ := List.exists_cons_of_ne_nil tight.written
  have stays : isBlank first = false := tight.starts first rfl
  have cut : (before ++ (first :: rest) ++ after).dropWhile isBlank = (first :: rest) ++ after := by
    rw [List.append_assoc, List.dropWhile_append_of_pos front, List.cons_append,
      List.dropWhile_cons_of_neg (by simp [stays])]
  rw [trim, cut, dropEndWhile_append _ back, dropEndWhile_eq_self tight.ends]

theorem exists_padded {t : Text} (shows : ¬ Blank t) :
    ∃ before after, t = before ++ trim t ++ after ∧ Blank before ∧ Blank after ∧ Tight (trim t) := by
  refine ⟨t.takeWhile isBlank, (t.dropWhile isBlank).rtakeWhile isBlank, ?_, ?_, ?_, ?_⟩
  · rw [List.append_assoc, trim, dropEndWhile_eq_rdropWhile, List.rdropWhile_append_rtakeWhile,
      List.takeWhile_append_dropWhile]
  · intro c member
    exact List.mem_takeWhile_imp member
  · intro c member
    exact List.mem_rtakeWhile_imp member
  · have written : trim t ≠ [] := fun none => shows (trim_eq_nil_iff.1 none)
    refine ⟨written, ?_, fun c last => getLast?_dropEndWhile last⟩
    intro c first
    obtain ⟨more, front⟩ : trim t <+: t.dropWhile isBlank := List.rdropWhile_prefix _ _
    have stays := List.head?_dropWhile_not isBlank t
    rw [← front, List.head?_append_of_ne_nil _ written, first] at stays
    simpa using stays

end Text

namespace CommaList
open Text

def IsItem (t : Text) : Prop := Tight t ∧ ',' ∉ t

/-- The fields hold these items, with blanks around each, and otherwise only blanks. -/
inductive Holds : List Text → List Text → Prop where
  | none : Holds [] []
  | blank {field : Text} {fields items : List Text} (blank : Blank field)
      (rest : Holds fields items) : Holds (field :: fields) items
  | item {before item after : Text} {fields items : List Text} (front : Blank before)
      (isItem : IsItem item) (back : Blank after) (rest : Holds fields items) :
      Holds ((before ++ item ++ after) :: fields) (item :: items)

theorem comma_not_mem {t : Text} (blank : Blank t) : ',' ∉ t := by
  intro comma
  have shows : isBlank ',' = false := by decide
  rw [blank ',' comma] at shows
  cases shows

theorem items_append (a b : Text) : items (a ++ ',' :: b) = items a ++ items b := by
  simp only [items, List.splitOn_append_cons_self, List.map_append, List.filter_append]

theorem items_intercalate (fields : List Text) :
    items ([','].intercalate fields) = fields.flatMap items := by
  induction fields with
  | nil => rfl
  | cons field fields ih =>
    by_cases last : fields = []
    · subst last
      simp
    · rw [List.intercalate_cons_of_ne_nil last, List.append_assoc, List.singleton_append,
        items_append, ih, List.flatMap_cons]

theorem items_of_blank {field : Text} (blank : Blank field) : items field = [] := by
  simp [items, List.splitOn_eq_singleton (comma_not_mem blank), trim_eq_nil_iff.2 blank]

theorem items_padded {before item after : Text} (front : Blank before) (isItem : IsItem item)
    (back : Blank after) : items (before ++ item ++ after) = [item] := by
  have plain : ',' ∉ before ++ item ++ after := by
    simp [comma_not_mem front, isItem.2, comma_not_mem back]
  rw [items, List.splitOn_eq_singleton plain, List.map_singleton, trim_padded front isItem.1 back]
  simp [isItem.1.written]

theorem Holds.flatMap_eq {fields its : List Text} (h : Holds fields its) :
    fields.flatMap items = its := by
  induction h with
  | none => rfl
  | blank blank _ ih => rw [List.flatMap_cons, items_of_blank blank, ih, List.nil_append]
  | item front isItem back _ ih =>
    rw [List.flatMap_cons, items_padded front isItem back, ih, List.singleton_append]

theorem Holds.isItem {fields its : List Text} (h : Holds fields its) : ∀ item ∈ its, IsItem item := by
  induction h with
  | none => simp
  | blank _ _ ih => exact ih
  | item _ isItem _ _ ih =>
    intro other member
    rcases List.mem_cons.1 member with rfl | member
    · exact isItem
    · exact ih other member

theorem holds_self {its : List Text} (all : ∀ item ∈ its, IsItem item) : Holds its its := by
  induction its with
  | nil => exact .none
  | cons item rest ih =>
    have bare : Holds (([] ++ item ++ []) :: rest) (item :: rest) :=
      .item (by simp [Blank]) (all item (List.mem_cons_self ..)) (by simp [Blank])
        (ih fun other member => all other (List.mem_cons_of_mem _ member))
    simpa using bare

theorem holds_of_fields (fields : List Text) (plain : ∀ field ∈ fields, ',' ∉ field) :
    Holds fields ((fields.map trim).filter (· ≠ [])) := by
  induction fields with
  | nil => exact .none
  | cons field rest ih =>
    have more := ih fun other member => plain other (List.mem_cons_of_mem _ member)
    by_cases blank : Blank field
    · simpa [trim_eq_nil_iff.2 blank] using Holds.blank blank more
    · obtain ⟨before, after, whole, front, back, tight⟩ := exists_padded blank
      have own : ',' ∉ trim field := by
        intro comma
        apply plain field (List.mem_cons_self ..)
        rw [whole]
        simp [comma]
      have held := Holds.item front ⟨tight, own⟩ back more
      rw [← whole] at held
      simpa [tight.written] using held

theorem holds_splitOn (t : Text) : Holds (t.splitOn ',') (items t) :=
  holds_of_fields _ fun _ => not_mem_of_mem_splitOn

/-- Texts joined by a comma are read one after the other; all that is read are items; and items are
read back from whatever fields hold them, so from the commas between them alone as well. -/
theorem items_read_back :
    (∀ a b, items (a ++ ',' :: b) = items a ++ items b) ∧
    (∀ t, ∀ item ∈ items t, IsItem item) ∧
    (∀ fields its, Holds fields its → items ([','].intercalate fields) = its) ∧
    ∀ t, items ([','].intercalate (items t)) = items t := by
  have back : ∀ fields its, Holds fields its → items ([','].intercalate fields) = its := by
    intro fields its h
    rw [items_intercalate, h.flatMap_eq]
  refine ⟨items_append, fun t => (holds_splitOn t).isItem, back, ?_⟩
  intro t
  exact back _ _ (holds_self (holds_splitOn t).isItem)

/-- A field of an ideographic and a no-break blank, one of an information separator, and an empty
one at the end. -/
theorem items_read_back_odd_blanks :
    let fields : List Text := ["\u3000\u00a0", "\tout dir\u2003", "\x1c", "b", ""]
    Holds fields ["out dir", "b"] ∧ items ([','].intercalate fields) = ["out dir", "b"] := by
  intro fields
  have held : Holds fields (items ([','].intercalate fields)) := by
    have split : ([','].intercalate fields).splitOn ',' = fields := by decide
    have read := holds_splitOn ([','].intercalate fields)
    rwa [split] at read
  have read : items ([','].intercalate fields) = ["out dir".toList, "b".toList] := by decide
  rw [read] at held
  exact ⟨held, items_read_back.2.2.1 fields _ held⟩

end CommaList

end LicenseHeaders
