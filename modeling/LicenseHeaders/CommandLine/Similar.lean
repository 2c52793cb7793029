import LicenseHeaders.Text.Basic

/-!
How alike two texts are, for suggestions. The texts are aligned at their longest common block, then
the parts on its left and on its right in the same way; the likeness is twice the number of aligned
characters over the sum of the lengths. Of several longest blocks the one that starts first counts,
first in the one text, then in the other.
-/
namespace LicenseHeaders.Similar

def commonLength : Text → Text → Nat
  | a :: s, b :: t => if a = b then commonLength s t + 1 else 0
  | _, _ => 0

structure Block where
  first : Nat
  second : Nat
  length : Nat
deriving DecidableEq, Repr

def longestBlock (s t : Text) : Block :=
  let starts := (List.range s.length).flatMap fun i => (List.range t.length).map fun j => (i, j)
  starts.foldl (fun best (i, j) =>
    let length := commonLength (s.drop i) (t.drop j)
    if best.length < length then ⟨i, j, length⟩ else best) ⟨0, 0, 0⟩

/-- The number of aligned characters. Each alignment uses up one of the first text, so its length
bounds the depth. -/
def alignedTo (bound : Nat) (s t : Text) : Nat :=
  match bound with
  | 0 => 0
  | bound + 1 =>
    let block := longestBlock s t
    if block.length = 0 then 0
    else
      block.length + alignedTo bound (s.take block.first) (t.take block.second) +
        alignedTo bound (s.drop (block.first + block.length)) (t.drop (block.second + block.length))

structure Likeness where
  aligned : Nat
  size : Nat
  text : Text
deriving DecidableEq, Repr

def likeness (word candidate : Text) : Likeness where
  aligned := alignedTo candidate.length candidate word
  size := candidate.length + word.length
  text := candidate

def Likeness.isClose (l : Likeness) : Bool := 3 * l.size ≤ 10 * l.aligned

/-- The greater likeness first; of equal ones the later text in code point order. -/
def Likeness.before (a b : Likeness) : Bool :=
  if a.aligned * b.size = b.aligned * a.size then !decide (a.text < b.text)
  else b.aligned * a.size < a.aligned * b.size

def lengthsAreClose (word candidate : Text) : Bool :=
  3 * (candidate.length + word.length) ≤ 10 * min candidate.length word.length

def closest (word : Text) (candidates : List Text) : List Text :=
  let alike := (candidates.filter (lengthsAreClose word)).map (likeness word)
  (((alike.filter (·.isClose)).mergeSort Likeness.before).take 3).map (·.text)

end LicenseHeaders.Similar
