import LicenseHeaders.Text.Basic

/-!
Texts of several lines. A line ends with one of ten control and separator characters, or with a
carriage return and a line feed together. A tab fills up to the next column that is a multiple of
eight. The margin of a text is the indentation that all its lines but the first have in common.
-/
namespace LicenseHeaders.Text

def isLineEnd (c : Char) : Bool :=
  inRanges [(0x0a, 0x0d), (0x1c, 0x1e), (0x85, 0x85), (0x2028, 0x2029)] c

/-- The lines without their ends; nothing behind the last end is no line. -/
def lines : Text → List Text
  | [] => []
  | '\r' :: '\n' :: rest => [] :: lines rest
  | c :: rest =>
    if isLineEnd c then [] :: lines rest
    else match lines rest with
      | [] => [[c]]
      | line :: more => (c :: line) :: more

def expandTabsFrom (column : Nat) : Text → Text
  | [] => []
  | c :: rest =>
    if c = '\t' then spaces (8 - column % 8) ++ expandTabsFrom 0 rest
    else c :: expandTabsFrom (if c = '\n' || c = '\r' then 0 else column + 1) rest

def expandTabs (t : Text) : Text := expandTabsFrom 0 t

def indentation (line : Text) : Nat := (line.takeWhile isBlank).length

def margin (lines : List Text) : Nat :=
  (((lines.filter fun line => !line.all isBlank).map indentation).min?).getD 0

def withoutMargin (t : Text) : Text :=
  match t.splitOn '\n' with
  | [] => []
  | first :: rest =>
    ['\n'].intercalate (first.dropWhile isBlank :: rest.map (·.drop (margin rest)))

example : lines "a\r\n\nb\n" = (["a", "", "b"] : List Text) := by decide
example : withoutMargin " a\n   b\n\n  c" = "a\n b\n\nc" := by decide

end LicenseHeaders.Text
