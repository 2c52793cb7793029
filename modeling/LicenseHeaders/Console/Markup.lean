import LicenseHeaders.Text.Basic

/-!
Console markup. A tag is a bracketed text that starts with a small letter or one of `#`, `/`, `@`
and holds no further opening bracket. Tags set styles and show nothing. An odd number of backslashes
before a tag makes it plain text; each further pair of them shows one. In all other text a backslash
directly before an opening bracket is dropped as well.
-/
namespace LicenseHeaders.Markup

def opensTag (c : Char) : Bool := ('a' ≤ c && c ≤ 'z') || c = '#' || c = '/' || c = '@'

/-- The text up to the first closing bracket, if no opening bracket comes before it. -/
def upToClose : Text → Option Text
  | [] => none
  | c :: rest =>
    if c = ']' then some [']']
    else if c = '[' then none
    else (upToClose rest).map (c :: ·)

def tag? : Text → Option Text
  | '[' :: c :: rest =>
    if opensTag c then (upToClose rest).map fun body => '[' :: c :: body else none
  | _ => none

inductive Piece where
  | plain (c : Char)
  | tag (backslashes : Nat) (text : Text)
deriving DecidableEq, Repr

/-- Cuts a text into plain characters and tags. `skip` counts characters of a tag already cut off,
`backslashes` those seen directly before. -/
def piecesFrom (skip backslashes : Nat) : Text → List Piece
  | [] => List.replicate backslashes (.plain '\\')
  | c :: rest =>
    match skip with
    | skip + 1 => piecesFrom skip 0 rest
    | 0 =>
      if c = '\\' then piecesFrom 0 (backslashes + 1) rest
      else match tag? (c :: rest) with
        | some text => .tag backslashes text :: piecesFrom (text.length - 1) 0 rest
        | none => List.replicate backslashes (.plain '\\') ++ .plain c :: piecesFrom 0 0 rest

def pieces (t : Text) : List Piece := piecesFrom 0 0 t

def Piece.escaped : Piece → Text
  | .plain c => [c]
  | .tag backslashes text => List.replicate (2 * backslashes + 1) '\\' ++ text

/-- A single backslash at the end is doubled, so that it does not act on what is put behind. -/
def closed (t : Text) : Text :=
  match t.reverse with
  | '\\' :: '\\' :: _ => t
  | '\\' :: _ => t ++ ['\\']
  | _ => t

def escape (t : Text) : Text := closed ((pieces t).flatMap Piece.escaped)

def shown : List Piece → Text
  | [] => []
  | .plain '\\' :: .plain '[' :: rest => '[' :: shown rest
  | .plain c :: rest => c :: shown rest
  | .tag backslashes text :: rest =>
    List.replicate (backslashes / 2) '\\' ++ (if backslashes % 2 = 1 then text else []) ++ shown rest

def plainText (markup : Text) : Text := shown (pieces markup)

example : plainText ("[green]" ++ escape "[/].rb \\[b]" ++ "[/]") = "[/].rb \\[b]" := by decide
example : plainText ("[green]" ++ escape "a\\[0]" ++ "[/]") = "a[0]" := by decide

end LicenseHeaders.Markup
