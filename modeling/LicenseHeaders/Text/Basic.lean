/-!
Texts are lists of Unicode scalar values. They are cut at a character and joined again as any lists
are. This module holds the other operations on them that every module uses: removing blanks or other
characters from an end, and looking for one text inside another.
-/
namespace LicenseHeaders

abbrev Text := List Char

scoped instance : Coe String Text := ⟨String.toList⟩

namespace Text

/-- `List.intercalate`, for a glue that may be written as a string. -/
abbrev joinWith (glue : Text) (pieces : List Text) : Text := glue.intercalate pieces

def dropEndWhile (p : Char → Bool) (t : Text) : Text := (t.reverse.dropWhile p).reverse

def decimal (n : Nat) : Text := Nat.toDigits 10 n

def signedDecimal (n : Int) : Text :=
  if n < 0 then '-' :: decimal n.natAbs else decimal n.natAbs

def hexDigits (width n : Nat) : Text :=
  let digits := Nat.toDigits 16 n
  List.replicate (width - digits.length) '0' ++ digits

def spaces (n : Nat) : Text := List.replicate n ' '

def inRanges (ranges : List (Nat × Nat)) (c : Char) : Bool :=
  ranges.any fun (first, last) => first ≤ c.toNat && c.toNat ≤ last

def blankRanges : List (Nat × Nat) :=
  [(0x09, 0x0d), (0x1c, 0x20), (0x85, 0x85), (0xa0, 0xa0), (0x1680, 0x1680), (0x2000, 0x200a),
   (0x2028, 0x2029), (0x202f, 0x202f), (0x205f, 0x205f), (0x3000, 0x3000)]

/-- A character is blank if it has the Unicode property White_Space or is one of the four
information separators U+001C to U+001F. -/
def isBlank (c : Char) : Bool := inRanges blankRanges c

def trim (t : Text) : Text := dropEndWhile isBlank (t.dropWhile isBlank)

theorem not_mem_of_mem_splitOn {mark : Char} {t piece : Text} (member : piece ∈ t.splitOn mark) :
    mark ∉ piece := by
  induction t generalizing piece with
  | nil =>
    rw [List.splitOn_nil, List.mem_singleton] at member
    simp [member]
  | cons c t ih =>
    rw [List.splitOn_cons_eq_if_modifyHead] at member
    split at member
    case isTrue =>
      obtain rfl | member := List.mem_cons.1 member
      · simp
      · exact ih member
    case isFalse differs =>
      obtain ⟨first, others, split⟩ := List.exists_cons_of_ne_nil (List.splitOn_ne_nil mark t)
      rw [split, List.modifyHead_cons] at member
      obtain rfl | member := List.mem_cons.1 member
      · have inner : mark ∉ first := ih (split ▸ List.mem_cons_self ..)
        have other : mark ≠ c := by
          rintro rfl
          simp at differs
        simp [inner, other]
      · exact ih (split ▸ List.mem_cons_of_mem _ member)

theorem intercalate_append_of_ne_nil (glue : Text) {front back : List Text} (one : front ≠ [])
    (more : back ≠ []) :
    glue.intercalate (front ++ back) = glue.intercalate front ++ glue ++ glue.intercalate back := by
  induction front with
  | nil => exact absurd rfl one
  | cons first front ih =>
    by_cases last : front = []
    · subst last
      rw [List.singleton_append, List.intercalate_cons_of_ne_nil more, List.intercalate_singleton]
    · rw [List.cons_append, List.intercalate_cons_of_ne_nil (by simp [more]), ih last,
        List.intercalate_cons_of_ne_nil last]
      simp only [List.append_assoc]

end Text

def occursIn [BEq α] (block : List α) : List α → Bool
  | [] => block.isEmpty
  | a :: rest => block.isPrefixOf (a :: rest) || occursIn block rest

theorem occursIn_iff [BEq α] [LawfulBEq α] (block whole : List α) :
    occursIn block whole = true ↔ ∃ before after, whole = before ++ block ++ after := by
  induction whole with
  | nil =>
    simp only [occursIn, List.isEmpty_iff]
    constructor
    · rintro rfl
      exact ⟨[], [], rfl⟩
    · rintro ⟨before, after, eq⟩
      simp at eq
      exact eq.2.1
  | cons a rest ih =>
    simp only [occursIn, Bool.or_eq_true, List.isPrefixOf_iff_prefix, ih]
    constructor
    · rintro (⟨after, eq⟩ | ⟨before, after, eq⟩)
      · exact ⟨[], after, by simp [eq]⟩
      · exact ⟨a :: before, after, by simp [eq]⟩
    · rintro ⟨before, after, eq⟩
      cases before with
      | nil => exact .inl ⟨after, by simpa using eq.symm⟩
      | cons b before =>
        simp only [List.cons_append, List.cons.injEq] at eq
        exact .inr ⟨before, after, by simpa using eq.2⟩

end LicenseHeaders
