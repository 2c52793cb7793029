import Mathlib.Data.List.Basic
import LicenseHeaders.Console.Markup

/-!
Text that is escaped and then shown. Every tag in it comes back as it was, with the backslashes
before it, and so does every other character but one kind: escaping sees nothing to escape in an
opening bracket that begins no tag, and showing drops the backslash before it. So a text is shown as
it is exactly if it has no such backslash.
-/
namespace LicenseHeaders.Markup

/-- What is left of a text that was escaped: a backslash directly before an opening bracket that
begins no tag is gone. -/
def faded : Text → Text
  | [] => []
  | c :: rest =>
    if c = '\\' ∧ rest.head? = some '[' ∧ tag? rest = none then faded rest else c :: faded rest

/-- Some opening bracket begins no tag and stands directly behind a backslash. -/
def Loose (t : Text) : Prop :=
  ∃ before after, t = before ++ '\\' :: '[' :: after ∧ tag? ('[' :: after) = none

section Tag

theorem upToClose_eq_some {t found : Text} (closes : upToClose t = some found) :
    ∃ body more, t = body ++ ']' :: more ∧ found = body ++ [']'] ∧ '[' ∉ body ∧ ']' ∉ body := by
  induction t generalizing found with
  | nil => cases closes
  | cons c rest ih =>
    rw [upToClose] at closes
    split at closes
    case isTrue close =>
      cases closes
      exact ⟨[], rest, by simp [close], rfl, by simp, by simp⟩
    case isFalse other =>
      split at closes
      case isTrue => cases closes
      case isFalse inner =>
        obtain ⟨front, first, rfl⟩ := Option.map_eq_some_iff.1 closes
        obtain ⟨body, more, rfl, rfl, plain, still⟩ := ih first
        refine ⟨c :: body, more, rfl, rfl, ?_, ?_⟩
        · simp [plain, Ne.symm inner]
        · simp [still, Ne.symm other]

theorem upToClose_of_close {body : Text} (inner : '[' ∉ body) (still : ']' ∉ body) (more : Text) :
    upToClose (body ++ ']' :: more) = some (body ++ [']']) := by
  induction body with
  | nil => rfl
  | cons c body ih =>
    rw [List.mem_cons, not_or] at inner still
    rw [List.cons_append, upToClose, if_neg (Ne.symm still.1), if_neg (Ne.symm inner.1),
      ih inner.2 still.2]
    rfl

theorem upToClose_backslashes (backslashes : Nat) {t : Text} (opened : upToClose t = none) :
    upToClose (List.replicate backslashes '\\' ++ t) = none := by
  induction backslashes with
  | zero => exact opened
  | succ n ih =>
    rw [List.replicate_succ, List.cons_append, upToClose, if_neg (by decide), if_neg (by decide), ih]
    rfl

theorem tag?_eq_some {t tag : Text} (found : tag? t = some tag) : ∃ c body more,
    t = '[' :: c :: body ++ ']' :: more ∧ tag = '[' :: c :: body ++ [']'] ∧ opensTag c = true ∧
      '[' ∉ body ∧ ']' ∉ body := by
  unfold tag? at found
  split at found
  case h_1 c rest =>
    split at found
    case isTrue opens =>
      obtain ⟨front, closes, rfl⟩ := Option.map_eq_some_iff.1 found
      obtain ⟨body, more, rfl, rfl, inner, still⟩ := upToClose_eq_some closes
      exact ⟨c, body, more, rfl, rfl, opens, inner, still⟩
    case isFalse => cases found
  case h_2 => cases found

theorem tag?_cons_cons (c : Char) (rest : Text) :
    tag? ('[' :: c :: rest) = none ↔ opensTag c = false ∨ upToClose rest = none := by
  cases opens : opensTag c <;> simp [tag?, opens]

theorem tag?_of_ne {c : Char} (other : c ≠ '[') (rest : Text) : tag? (c :: rest) = none := by
  unfold tag?
  split
  case h_1 eq => exact absurd (List.cons.inj eq).1 other
  case h_2 => rfl

theorem exists_of_tag? {t tag : Text} (found : tag? t = some tag) : ∃ more, t = tag ++ more := by
  obtain ⟨c, body, more, rfl, rfl, _⟩ := tag?_eq_some found
  exact ⟨more, by simp⟩

theorem cut_induction {motive : Text → Prop} (nil : motive [])
    (backslash : ∀ rest, motive rest → motive ('\\' :: rest))
    (tag : ∀ text more, tag? (text ++ more) = some text → motive more → motive (text ++ more))
    (other : ∀ c rest, c ≠ '\\' → tag? (c :: rest) = none → motive rest → motive (c :: rest))
    (t : Text) : motive t := by
  induction size : t.length using Nat.strongRecOn generalizing t with
  | ind size ih =>
  cases t with
  | nil => exact nil
  | cons c rest =>
    have behind : motive rest := ih rest.length (by simp [← size]) rest rfl
    by_cases escape : c = '\\'
    · subst escape
      exact backslash rest behind
    cases found : tag? (c :: rest) with
    | none => exact other c rest escape found behind
    | some text =>
      obtain ⟨more, whole⟩ := exists_of_tag? found
      rw [whole] at found size ⊢
      refine tag text more found (ih more.length ?_ more rfl)
      obtain ⟨d, body, _, _, rfl, _⟩ := tag?_eq_some found
      rw [← size, List.length_append, List.length_append]
      simp

end Tag

section Pieces

theorem piecesFrom_skip (front more : Text) :
    piecesFrom front.length 0 (front ++ more) = pieces more := by
  induction front with
  | nil => rfl
  | cons c front ih => rw [List.length_cons, List.cons_append, piecesFrom, ih]

@[simp] theorem piecesFrom_backslash (backslashes : Nat) (rest : Text) :
    piecesFrom 0 backslashes ('\\' :: rest) = piecesFrom 0 (backslashes + 1) rest := by
  simp [piecesFrom]

theorem piecesFrom_backslashes (backslashes n : Nat) (rest : Text) :
    piecesFrom 0 backslashes (List.replicate n '\\' ++ rest) =
      piecesFrom 0 (backslashes + n) rest := by
  induction n generalizing backslashes with
  | zero => rfl
  | succ n ih =>
    rw [List.replicate_succ, List.cons_append, piecesFrom_backslash, ih]
    congr 1
    omega

theorem piecesFrom_tag {text more : Text} (found : tag? (text ++ more) = some text)
    (backslashes : Nat) :
    piecesFrom 0 backslashes (text ++ more) = .tag backslashes text :: pieces more := by
  obtain ⟨c, body, _, _, rfl, _⟩ := tag?_eq_some found
  rw [List.cons_append, List.cons_append] at found ⊢
  rw [piecesFrom, if_neg (by decide), found]
  exact congrArg _ (piecesFrom_skip (c :: body ++ [']']) more)

theorem piecesFrom_other {c : Char} {rest : Text} (plain : c ≠ '\\')
    (none : tag? (c :: rest) = none) (backslashes : Nat) :
    piecesFrom 0 backslashes (c :: rest) =
      List.replicate backslashes (.plain '\\') ++ .plain c :: pieces rest := by
  rw [piecesFrom, if_neg plain, none]
  rfl

end Pieces

/-- The escaped form of a text that stands behind so many backslashes, these included. -/
def escapedAfter (backslashes : Nat) (t : Text) : Text :=
  (piecesFrom 0 backslashes t).flatMap Piece.escaped

section Escaped

variable (backslashes : Nat)

theorem escaped_backslashes (ps : List Piece) :
    (List.replicate backslashes (Piece.plain '\\') ++ ps).flatMap Piece.escaped =
      List.replicate backslashes '\\' ++ ps.flatMap Piece.escaped := by
  induction backslashes with
  | zero => rfl
  | succ n ih =>
    rw [List.replicate_succ, List.cons_append, List.flatMap_cons, ih]
    rfl

@[simp] theorem escapedAfter_nil : escapedAfter backslashes [] = List.replicate backslashes '\\' := by
  have alone := escaped_backslashes backslashes []
  simpa [escapedAfter, piecesFrom] using alone

@[simp] theorem escapedAfter_backslash (rest : Text) :
    escapedAfter backslashes ('\\' :: rest) = escapedAfter (backslashes + 1) rest := by
  rw [escapedAfter, piecesFrom_backslash, escapedAfter]

theorem escapedAfter_tag {text more : Text} (found : tag? (text ++ more) = some text) :
    escapedAfter backslashes (text ++ more) =
      List.replicate (2 * backslashes + 1) '\\' ++ (text ++ escapedAfter 0 more) := by
  rw [escapedAfter, piecesFrom_tag found, List.flatMap_cons, Piece.escaped, List.append_assoc]
  rfl

theorem escapedAfter_other {c : Char} {rest : Text} (plain : c ≠ '\\')
    (none : tag? (c :: rest) = none) :
    escapedAfter backslashes (c :: rest) =
      List.replicate backslashes '\\' ++ c :: escapedAfter 0 rest := by
  rw [escapedAfter, piecesFrom_other plain none, escaped_backslashes, List.flatMap_cons]
  rfl

theorem escapedAfter_begins (t : Text) :
    ∃ more, escapedAfter backslashes t = List.replicate backslashes '\\' ++ more := by
  induction t using cut_induction generalizing backslashes with
  | nil => exact ⟨[], by simp⟩
  | backslash rest ih =>
    obtain ⟨more, eq⟩ := ih (backslashes + 1)
    exact ⟨'\\' :: more, by rw [escapedAfter_backslash, eq, List.replicate_succ']; simp⟩
  | tag text more found ih =>
    have behind := escapedAfter_tag backslashes found
    rw [Nat.two_mul, Nat.add_assoc, List.replicate_add, List.append_assoc] at behind
    exact ⟨_, behind⟩
  | other c rest plain none ih => exact ⟨_, escapedAfter_other _ plain none⟩

theorem getLast?_escapedAfter (t : Text) :
    (escapedAfter backslashes t).getLast? = (List.replicate backslashes '\\' ++ t).getLast? := by
  induction t using cut_induction generalizing backslashes with
  | nil => simp
  | backslash rest ih =>
    rw [escapedAfter_backslash, ih, List.replicate_succ']
    simp
  | tag text more found ih =>
    obtain ⟨c, body, _, _, rfl, _⟩ := tag?_eq_some found
    rw [escapedAfter_tag _ found]
    simp only [List.getLast?_append, ih]
    simp
  | other c rest plain none ih =>
    rw [escapedAfter_other _ plain none]
    simp [List.getLast?_append, List.getLast?_cons, ih]

theorem escape_eq {t : Text} (last : t.getLast? ≠ some '\\') : escape t = escapedAfter 0 t := by
  have kept : (escapedAfter 0 t).getLast? ≠ some '\\' := by
    rw [getLast?_escapedAfter]
    exact last
  rw [← List.head?_reverse] at kept
  change closed (escapedAfter 0 t) = escapedAfter 0 t
  unfold closed
  split
  · rfl
  · rename_i eq
    rw [eq] at kept
    exact absurd rfl kept
  · rfl

end Escaped

section Closing

-- what may stand behind an escaped text: nothing or a tag, neither of which could end a tag in it
variable {behind : Text} (apart : ∀ c, behind.head? = some c → c = '[')
include apart

theorem upToClose_apart : upToClose behind = none := by
  cases behind with
  | nil => rfl
  | cons c behind =>
    obtain rfl := apart c rfl
    rfl

theorem upToClose_escapedAfter {t : Text} (opened : upToClose t = none) (backslashes : Nat) :
    upToClose (escapedAfter backslashes t ++ behind) = none := by
  induction t using cut_induction generalizing backslashes with
  | nil =>
    rw [escapedAfter_nil]
    exact upToClose_backslashes _ (upToClose_apart apart)
  | backslash rest ih =>
    rw [escapedAfter_backslash]
    refine ih ?_ _
    rw [upToClose, if_neg (by decide), if_neg (by decide), Option.map_eq_none_iff] at opened
    exact opened
  | tag text more found ih =>
    obtain ⟨c, body, _, _, rfl, _⟩ := tag?_eq_some found
    rw [escapedAfter_tag _ found, List.append_assoc]
    exact upToClose_backslashes _ rfl
  | other c rest plain none ih =>
    rw [escapedAfter_other _ plain none, List.append_assoc]
    refine upToClose_backslashes _ ?_
    rw [List.cons_append, upToClose]
    rw [upToClose] at opened
    split at opened
    case isTrue => cases opened
    case isFalse unclosed =>
      rw [if_neg unclosed]
      split at opened
      case isTrue inner => rw [if_pos inner]
      case isFalse inner =>
        rw [Option.map_eq_none_iff] at opened
        rw [if_neg inner, ih opened]
        rfl

theorem tag?_escapedAfter {c : Char} {rest : Text} (none : tag? (c :: rest) = none) :
    tag? (c :: (escapedAfter 0 rest ++ behind)) = Option.none := by
  by_cases bracket : c = '['
  case neg => exact tag?_of_ne bracket _
  subst bracket
  cases rest with
  | nil =>
    rw [escapedAfter_nil]
    cases behind with
    | nil => rfl
    | cons c behind =>
      obtain rfl := apart c rfl
      rfl
  | cons d rest =>
    by_cases escape : d = '\\'
    · subst escape
      obtain ⟨more, eq⟩ := escapedAfter_begins 1 rest
      rw [escapedAfter_backslash, eq]
      rfl
    cases found : tag? (d :: rest) with
    | some text =>
      obtain ⟨more, whole⟩ := exists_of_tag? found
      rw [whole] at found ⊢
      rw [escapedAfter_tag _ found]
      rfl
    | none =>
      rw [escapedAfter_other _ escape found]
      rw [tag?_cons_cons] at none
      refine (tag?_cons_cons d _).2 (none.imp_right fun opened => ?_)
      exact upToClose_escapedAfter apart opened 0

end Closing

section Shown

theorem shown_plain {c : Char} {ps : List Piece}
    (keeps : c = '\\' → ps.head? ≠ some (.plain '[')) :
    shown (.plain c :: ps) = c :: shown ps := by
  rw [shown]
  rintro rest rfl rfl
  exact keeps rfl rfl

theorem shown_append {front : Text} (plain : '\\' ∉ front) (ps : List Piece) :
    shown (front.map .plain ++ ps) = front ++ shown ps := by
  induction front with
  | nil => rfl
  | cons c front ih =>
    rw [List.mem_cons, not_or] at plain
    rw [List.map_cons, List.cons_append, shown_plain, ih plain.2]
    · rfl
    · rintro rfl
      exact absurd rfl plain.1

theorem shown_backslashes (backslashes : Nat) {ps : List Piece}
    (keeps : ps.head? ≠ some (.plain '[')) :
    shown (List.replicate backslashes (.plain '\\') ++ ps) =
      List.replicate backslashes '\\' ++ shown ps := by
  induction backslashes with
  | zero => rfl
  | succ n ih =>
    rw [List.replicate_succ, List.cons_append, shown_plain, ih]
    · rfl
    · intro _
      cases n with
      | zero => exact keeps
      | succ n => simp [List.replicate_succ]

theorem shown_other (backslashes : Nat) {c : Char} (plain : c ≠ '\\') (ps : List Piece) :
    shown (List.replicate backslashes (.plain '\\') ++ .plain c :: ps) =
      List.replicate (if c = '[' then backslashes - 1 else backslashes) '\\' ++ c :: shown ps := by
  have alone : shown (.plain c :: ps) = c :: shown ps := shown_plain fun same => absurd same plain
  by_cases bracket : c = '['
  · subst bracket
    cases backslashes with
    | zero => exact alone
    | succ n =>
      rw [List.replicate_succ', List.append_assoc, List.singleton_append,
        shown_backslashes n (by simp)]
      rfl
  · rw [if_neg bracket, shown_backslashes, alone]
    simp [bracket]

end Shown

section Faded

theorem faded_cons {c : Char} {rest : Text}
    (keeps : c = '\\' → rest.head? = some '[' → tag? rest ≠ none) :
    faded (c :: rest) = c :: faded rest := by
  rw [faded, if_neg]
  rintro ⟨same, bracket, loose⟩
  exact keeps same bracket loose

theorem faded_loose {rest : Text} (loose : tag? ('[' :: rest) = none) :
    faded ('\\' :: '[' :: rest) = '[' :: faded rest := by
  rw [faded, if_pos ⟨rfl, rfl, loose⟩]
  exact faded_cons fun same => absurd same (by decide)

theorem faded_backslashes (backslashes : Nat) {t : Text}
    (keeps : t.head? = some '[' → tag? t ≠ none) :
    faded (List.replicate backslashes '\\' ++ t) = List.replicate backslashes '\\' ++ faded t := by
  induction backslashes with
  | zero => rfl
  | succ n ih =>
    rw [List.replicate_succ, List.cons_append, faded_cons, ih]
    · rfl
    · intro _
      cases n with
      | zero => exact keeps
      | succ n =>
        intro bracket
        simp [List.replicate_succ] at bracket

theorem faded_other (backslashes : Nat) {c : Char} {rest : Text} (plain : c ≠ '\\')
    (none : tag? (c :: rest) = none) :
    faded (List.replicate backslashes '\\' ++ c :: rest) =
      List.replicate (if c = '[' then backslashes - 1 else backslashes) '\\' ++ c :: faded rest := by
  have alone : faded (c :: rest) = c :: faded rest := faded_cons fun same => absurd same plain
  by_cases bracket : c = '['
  · subst bracket
    cases backslashes with
    | zero => exact alone
    | succ n =>
      rw [List.replicate_succ', List.append_assoc, List.singleton_append,
        faded_backslashes n (by simp), faded_loose none]
      rfl
  · rw [if_neg bracket, faded_backslashes, alone]
    simp [bracket]

theorem faded_upTo {front : Text} (inner : '[' ∉ front) (more : Text) :
    faded (front ++ ']' :: more) = front ++ ']' :: faded more := by
  induction front with
  | nil => exact faded_cons fun same => absurd same (by decide)
  | cons c front ih =>
    rw [List.mem_cons, not_or] at inner
    rw [List.cons_append, faded_cons, ih inner.2]
    · rfl
    · intro _ bracket
      cases front with
      | nil => simp at bracket
      | cons d front =>
        cases bracket
        exact absurd (List.mem_cons_self ..) inner.2

theorem faded_tag (backslashes : Nat) {text more : Text} (found : tag? (text ++ more) = some text) :
    faded (List.replicate backslashes '\\' ++ (text ++ more)) =
      List.replicate backslashes '\\' ++ text ++ faded more := by
  rw [faded_backslashes _ fun _ => by simp [found]]
  obtain ⟨c, body, _, _, rfl, opens, inner, _⟩ := tag?_eq_some found
  have inside : '[' ∉ c :: body := by
    rw [List.mem_cons, not_or]
    refine ⟨?_, inner⟩
    rintro rfl
    cases opens
  have front : faded ('[' :: (c :: body ++ ']' :: more)) = '[' :: (c :: body ++ ']' :: faded more) := by
    rw [faded_cons fun same => absurd same (by decide), faded_upTo inside]
  simpa using front

theorem length_faded (t : Text) : (faded t).length ≤ t.length := by
  induction t with
  | nil => exact Nat.le_refl 0
  | cons c rest ih =>
    rw [faded]
    split <;> simp only [List.length_cons] <;> omega

theorem loose_cons {c : Char} {rest : Text} :
    Loose (c :: rest) ↔ (c = '\\' ∧ rest.head? = some '[' ∧ tag? rest = none) ∨ Loose rest := by
  constructor
  · rintro ⟨before, after, eq, none⟩
    cases before with
    | nil =>
      cases eq
      exact .inl ⟨rfl, rfl, none⟩
    | cons d before =>
      cases eq
      exact .inr ⟨before, after, rfl, none⟩
  · rintro (⟨rfl, bracket, none⟩ | ⟨before, after, rfl, none⟩)
    · obtain ⟨after, rfl⟩ := List.head?_eq_some_iff.1 bracket
      exact ⟨[], after, rfl, none⟩
    · exact ⟨c :: before, after, rfl, none⟩

theorem faded_eq_self_iff {t : Text} : faded t = t ↔ ¬ Loose t := by
  induction t with
  | nil =>
    refine iff_of_true rfl ?_
    rintro ⟨before, after, eq, _⟩
    simp at eq
  | cons c rest ih =>
    rw [loose_cons, not_or, ← ih, faded]
    split
    case isTrue here =>
      refine iff_of_false (fun eq => ?_) (fun h => h.1 here)
      have shorter := length_faded rest
      rw [eq, List.length_cons] at shorter
      omega
    case isFalse elsewhere => simp [elsewhere]

section Tail

-- what stands behind a text without beginning or ending a tag
variable {tail : Text} (opens : '[' ∉ tail) (closes : ']' ∉ tail)
include closes

theorem upToClose_tail : upToClose tail = none := by
  induction tail with
  | nil => rfl
  | cons c tail ih =>
    rw [List.mem_cons, not_or] at closes
    rw [upToClose, if_neg (Ne.symm closes.1), ih closes.2]
    split <;> rfl

theorem upToClose_append (t : Text) : upToClose (t ++ tail) = upToClose t := by
  induction t with
  | nil => exact upToClose_tail closes
  | cons c t ih => rw [List.cons_append, upToClose, upToClose, ih]

include opens

theorem tag?_append (t : Text) : tag? (t ++ tail) = tag? t := by
  match t with
  | [] =>
    cases tail with
    | nil => rfl
    | cons c tail =>
      rw [List.mem_cons, not_or] at opens
      exact tag?_of_ne (Ne.symm opens.1) tail
  | [c] =>
    by_cases bracket : c = '['
    · subst bracket
      cases tail with
      | nil => rfl
      | cons d tail =>
        have still : ']' ∉ tail := fun member => closes (List.mem_cons_of_mem _ member)
        exact (tag?_cons_cons d tail).2 (.inr (upToClose_tail still))
    · rw [tag?_of_ne bracket, List.singleton_append, tag?_of_ne bracket]
  | c :: d :: t =>
    by_cases bracket : c = '['
    · subst bracket
      simp only [List.cons_append, tag?, upToClose_append closes]
    · rw [List.cons_append, tag?_of_ne bracket, tag?_of_ne bracket]

theorem faded_append (t : Text) : faded (t ++ tail) = faded t ++ tail := by
  induction t with
  | nil =>
    refine faded_eq_self_iff.2 ?_
    rintro ⟨before, after, rfl, _⟩
    simp at opens
  | cons c t ih =>
    have same : (t ++ tail).head? = some '[' ↔ t.head? = some '[' := by
      cases t with
      | nil =>
        refine ⟨fun bracket => absurd (List.mem_of_mem_head? bracket) opens, fun bracket => ?_⟩
        cases bracket
      | cons d t => rfl
    rw [List.cons_append, faded, faded, tag?_append opens closes, ih]
    simp only [same]
    split <;> rfl

end Tail

end Faded

section Rendered

theorem tag?_append_of {text more : Text} (found : tag? (text ++ more) = some text) (other : Text) :
    tag? (text ++ other) = some text := by
  obtain ⟨c, body, _, _, rfl, opens, inner, still⟩ := tag?_eq_some found
  have closes := upToClose_of_close inner still other
  simp [tag?, opens, closes]

theorem plainText_backslashes_tag (backslashes : Nat) {text more : Text}
    (found : tag? (text ++ more) = some text) :
    plainText (List.replicate backslashes '\\' ++ (text ++ more)) =
      List.replicate (backslashes / 2) '\\' ++ (if backslashes % 2 = 1 then text else []) ++
        plainText more := by
  rw [plainText, pieces, piecesFrom_backslashes, piecesFrom_tag found, Nat.zero_add, shown]
  rfl

theorem plainText_tag {text more : Text} (found : tag? (text ++ more) = some text) :
    plainText (text ++ more) = plainText more := plainText_backslashes_tag 0 found

theorem plainText_backslashes_other (backslashes : Nat) {c : Char} {rest : Text} (plain : c ≠ '\\')
    (none : tag? (c :: rest) = none) :
    plainText (List.replicate backslashes '\\' ++ c :: rest) =
      List.replicate (if c = '[' then backslashes - 1 else backslashes) '\\' ++
        c :: plainText rest := by
  rw [plainText, pieces, piecesFrom_backslashes, piecesFrom_other plain none, Nat.zero_add,
    shown_other _ plain]
  rfl

theorem plainText_append {front : Text} (escape : '\\' ∉ front) (bracket : '[' ∉ front)
    (more : Text) : plainText (front ++ more) = front ++ plainText more := by
  have cut : pieces (front ++ more) = front.map .plain ++ pieces more := by
    induction front with
    | nil => rfl
    | cons c front ih =>
      rw [List.mem_cons, not_or] at escape bracket
      rw [List.cons_append, pieces, piecesFrom_other (Ne.symm escape.1)
        (tag?_of_ne (Ne.symm bracket.1) _), ih escape.2 bracket.2]
      rfl
  rw [plainText, cut, shown_append escape, plainText]

variable {behind : Text} (apart : ∀ c, behind.head? = some c → c = '[')
include apart

theorem plainText_escapedAfter {backslashes : Nat} {t : Text}
    (last : (List.replicate backslashes '\\' ++ t).getLast? ≠ some '\\') :
    plainText (escapedAfter backslashes t ++ behind) =
      faded (List.replicate backslashes '\\' ++ t) ++ plainText behind := by
  induction t using cut_induction generalizing backslashes with
  | nil =>
    cases backslashes with
    | zero => rfl
    | succ n => simp [List.getLast?_replicate] at last
  | backslash rest ih =>
    have gathered : List.replicate backslashes '\\' ++ '\\' :: rest =
        List.replicate (backslashes + 1) '\\' ++ rest := by
      rw [List.replicate_succ']
      simp
    rw [gathered] at last ⊢
    rw [escapedAfter_backslash, ih last]
  | tag text more found ih =>
    have last' : more.getLast? ≠ some '\\' := by
      intro bad
      simp [List.getLast?_append, bad] at last
    have rest : plainText (escapedAfter 0 more ++ behind) = faded more ++ plainText behind := ih last'
    have half : (2 * backslashes + 1) / 2 = backslashes := by omega
    have odd : (2 * backslashes + 1) % 2 = 1 := by omega
    rw [escapedAfter_tag _ found, faded_tag _ found, List.append_assoc, List.append_assoc,
      plainText_backslashes_tag _ (tag?_append_of found _), half, if_pos odd, rest]
    simp
  | other c rest plain none ih =>
    have last' : rest.getLast? ≠ some '\\' := by
      intro bad
      simp [List.getLast?_append, List.getLast?_cons, bad] at last
    have rest' : plainText (escapedAfter 0 rest ++ behind) = faded rest ++ plainText behind := ih last'
    rw [escapedAfter_other _ plain none, faded_other _ plain none, List.append_assoc,
      List.cons_append, plainText_backslashes_other _ plain (tag?_escapedAfter apart none), rest']
    simp

theorem plainText_escape {t : Text} (last : t.getLast? ≠ some '\\') :
    plainText (escape t ++ behind) = faded t ++ plainText behind := by
  rw [escape_eq last]
  exact plainText_escapedAfter apart last

end Rendered

end LicenseHeaders.Markup
