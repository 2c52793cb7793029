import LicenseHeaders.Text.Basic

/-!
Tables with a title, a heavy frame around the header row and a light one around the rest. A column
is as wide as its longest cell, with one blank on either side; the title stands in the middle.
-/
namespace LicenseHeaders

structure Table where
  title : Text
  header : List Text
  rows : List (List Text)
deriving DecidableEq, Repr

namespace Table

structure Rule where
  left : Char
  fill : Char
  cross : Char
  right : Char

def top : Rule := ⟨'┏', '━', '┳', '┓'⟩
def below : Rule := ⟨'┡', '━', '╇', '┩'⟩
def bottom : Rule := ⟨'└', '─', '┴', '┘'⟩

def padTo (width : Nat) (t : Text) : Text := t ++ Text.spaces (width - t.length)

/-- The text with half of the missing blanks on its left, the smaller half if they are odd. -/
def centre (width : Nat) (t : Text) : Text :=
  padTo width (Text.spaces ((width - t.length) / 2) ++ t)

def widths (t : Table) : List Nat :=
  (List.range t.header.length).map fun column =>
    ((t.header :: t.rows).map fun row => (row.getD column []).length).foldl max 0

def line (rule : Rule) (widths : List Nat) : Text :=
  rule.left ::
    [rule.cross].intercalate (widths.map fun width => List.replicate (width + 2) rule.fill) ++
    [rule.right]

def row (bar : Char) (widths : List Nat) (cells : List Text) : Text :=
  bar ::
    [bar].intercalate ((widths.zip cells).map fun (width, cell) => ' ' :: padTo width cell ++ [' ']) ++
    [bar]

def lines (t : Table) : List Text :=
  let widths := t.widths
  let ruler := line top widths
  [centre ruler.length t.title, ruler, row '┃' widths t.header, line below widths] ++
    t.rows.map (row '│' widths) ++ [line bottom widths]

end Table

end LicenseHeaders
