import LicenseHeaders.Text.Lines
import LicenseHeaders.Text.Word

/-!
Text broken into lines of a given width. Lines are broken at gaps, behind a hyphen inside a word, and
before or behind a dash between words; a piece that is longer than a line is cut. A blank piece
vanishes at a break. The lines of a text make up paragraphs, which an empty line ends; each is filled
on its own and keeps the indentation of its first line.
-/
namespace LicenseHeaders.Wrapped

open Text

/-- What parts one word from the next: the space and the controls U+0009 to U+000D, no other blank. -/
def isGap (c : Char) : Bool := inRanges [(0x09, 0x0d), (0x20, 0x20)] c

def isWordMark (c : Char) : Bool := isWordChar c || ['!', '"', '\'', '&', '.', ',', '?'].contains c

def goesOn : Text → Bool
  | a :: '-' :: b :: _ => isLetter a && isLetter b
  | a :: b :: _ => isLetter a && isLetter b
  | _ => false

/-- Whether a word may be broken behind a hyphen. `before` is what stands before the hyphen, last
character first: two letters, with a hyphen between them or not. -/
def breaksAtHyphen (before after : Text) : Bool := goesOn before && goesOn after

def dash? (t : Text) : Option Nat :=
  let count := (t.takeWhile (· = '-')).length
  match t.dropWhile (· = '-') with
  | c :: _ => if 2 ≤ count && isWordChar c then some count else none
  | [] => none

def dashAfter? (before t : Text) : Option Nat :=
  match before with
  | c :: _ => if isWordMark c then dash? t else none
  | [] => none

def flush (piece : Text) : List Text := if piece = [] then [] else [piece.reverse]

/-- Cuts a word into its pieces. `before` is what was read, last character first, `piece` the part
of it that is not cut off yet, and `dash` the number of hyphens that still belong to a dash. -/
def cutWord (before piece : Text) (dash : Nat) : Text → List Text
  | [] => flush piece
  | c :: rest =>
    match dash with
    | dash + 1 =>
      if dash = 0 then flush (c :: piece) ++ cutWord (c :: before) [] 0 rest
      else cutWord (c :: before) (c :: piece) dash rest
    | 0 =>
      match dashAfter? before (c :: rest) with
      | some count => flush piece ++ cutWord (c :: before) [c] (count - 1) rest
      | none =>
        if c = '-' ∧ piece ≠ [] ∧ breaksAtHyphen before rest then
          flush (c :: piece) ++ cutWord (c :: before) [] 0 rest
        else cutWord (c :: before) (c :: piece) 0 rest

def pieces (t : Text) : List Text :=
  (t.splitBy fun a b => isGap a = isGap b).flatMap fun run =>
    if run.all isGap then [run] else cutWord [] [] 0 run

def isBlankPiece (piece : Text) : Bool := piece.all isBlank

def withoutEndBlank (line : List Text) : List Text :=
  match line.getLast? with
  | some last => if isBlankPiece last then line.dropLast else line
  | none => line

def takeFitting (width : Nat) : List Text → List Text × List Text
  | [] => ([], [])
  | piece :: rest =>
    if piece.length ≤ width then
      let (line, more) := takeFitting (width - piece.length) rest
      (piece :: line, more)
    else ([], piece :: rest)

/-- Builds line after line. Every line takes up a character or a piece, so both together bound their
number. -/
def linesFrom (width : Nat) : (bound : Nat) → (first : Bool) → List Text → List Text
  | 0, _, _ => []
  | _, _, [] => []
  | bound + 1, first, pieces =>
    let pieces := match pieces with
      | piece :: rest => if !first && isBlankPiece piece then rest else pieces
      | [] => []
    let (line, more) := takeFitting width pieces
    let (line, more) := match more with
      | piece :: rest =>
        if width < piece.length then
          let room := max (width - line.flatten.length) 1
          (line ++ [piece.take room], piece.drop room :: rest)
        else (line, more)
      | [] => (line, more)
    let line := withoutEndBlank line
    if line = [] then linesFrom width bound first more
    else line.flatten :: linesFrom width bound false more

def fill (width : Nat) (t : Text) : List Text :=
  let pieces := pieces t
  linesFrom width (t.length + 2 * pieces.length + 1) true pieces

structure Paragraph where
  indentation : Nat
  lines : List Text
deriving DecidableEq, Repr

/-- Gathers lines into paragraphs; `current` is the paragraph that is not ended yet. -/
def gather (current : Option Paragraph) : List Text → List Paragraph
  | [] => current.toList
  | line :: rest =>
    if line = [] then current.toList ++ gather none rest
    else match current with
      | some p => gather (some { p with lines := p.lines ++ [line] }) rest
      | none => gather (some ⟨indentation line, [line.dropWhile isBlank]⟩) rest

/-- The lines of a paragraph as they are set. If the first holds nothing but a backspace, the others
stay as they are. -/
def Paragraph.set (width : Nat) (p : Paragraph) : List Text :=
  let set := match p.lines with
    | first :: rest =>
      if trim first = ['\x08'] then rest
      else fill (width - p.indentation) ([' '].intercalate p.lines)
    | [] => []
  set.map (spaces p.indentation ++ ·)

def layout (width : Nat) (t : Text) : List Text :=
  let paragraphs := gather none (lines (withoutMargin (expandTabs t)))
  lines (['\n', '\n'].intercalate (paragraphs.map fun p => ['\n'].intercalate (p.set width)))

example : layout 10 "one two three-four" = (["one two", "three-four"] : List Text) := by
  decide +kernel

end LicenseHeaders.Wrapped
