import LicenseHeaders.Proofs.Decoding
import LicenseHeaders.Proofs.Linewise

/-!
Markers in the bytes of a template. Line by line, two slashes at the start of a line give way to the
marker and nothing else changes. No byte of a longer sequence is a slash or ends a line, so the lines
of the bytes are those of the text, and what a language makes of the text is that, seen as bytes.
-/
namespace LicenseHeaders

namespace Utf8

theorem encodeChar_of_mem {c : Char} {b : UInt8} (member : b ∈ encodeChar c) (ascii : b.toNat < 0x80) :
    c.toNat = b.toNat ∧ encodeChar c = [b] := by
  have high : ∀ n, ¬ (continuation n).toNat < 0x80 := by
    intro n
    rw [toNat_continuation]
    omega
  have range := toNat_range c
  unfold encodeChar at member ⊢
  dsimp only at member ⊢
  split
  · rename_i one
    rw [if_pos one, List.mem_singleton] at member
    rw [member, toNat_ofNat_of_lt (by omega)]
    exact ⟨rfl, rfl⟩
  · rename_i one
    rw [if_neg one] at member
    split at member
    · rename_i two
      simp only [List.mem_cons, List.not_mem_nil, or_false] at member
      rcases member with rfl | rfl
      · rw [toNat_ofNat_of_lt (by omega)] at ascii
        omega
      · exact absurd ascii (high _)
    · split at member
      · rename_i three
        simp only [List.mem_cons, List.not_mem_nil, or_false] at member
        rcases member with rfl | rfl | rfl
        · rw [toNat_ofNat_of_lt (by omega)] at ascii
          omega
        · exact absurd ascii (high _)
        · exact absurd ascii (high _)
      · simp only [List.mem_cons, List.not_mem_nil, or_false] at member
        rcases member with rfl | rfl | rfl | rfl
        · rw [toNat_ofNat_of_lt (by omega)] at ascii
          omega
        · exact absurd ascii (high _)
        · exact absurd ascii (high _)
        · exact absurd ascii (high _)

theorem eq_of_mem_encodeChar {c d : Char} {b : UInt8} (member : b ∈ encodeChar c)
    (byte : b.toNat = d.toNat) (ascii : d.toNat < 0x80) : c = d := by
  obtain ⟨code, _⟩ := encodeChar_of_mem member (by omega)
  exact Char.toNat_inj.1 (code.trans byte)

theorem encode_eq_cons {t : Text} {d : Char} {b : UInt8} {bytes : Bytes}
    (written : encode t = b :: bytes) (byte : b.toNat = d.toNat) (ascii : d.toNat < 0x80) :
    ∃ rest, t = d :: rest ∧ encode rest = bytes := by
  cases t with
  | nil => cases written
  | cons c rest =>
    obtain ⟨first, tail, encoded, _⟩ := read_encodeChar c
    rw [encode, List.flatMap_cons, encoded, List.cons_append] at written
    obtain ⟨rfl, more⟩ := List.cons.inj written
    have member : first ∈ encodeChar c := by
      rw [encoded]
      exact List.mem_cons_self ..
    obtain ⟨_, alone⟩ := encodeChar_of_mem member (by omega)
    obtain rfl : tail = [] := by simpa [alone] using encoded.symm
    obtain rfl := eq_of_mem_encodeChar member byte ascii
    exact ⟨rest, rfl, more⟩

theorem not_mem_encode {t : Text} {d : Char} {b : UInt8} (byte : b.toNat = d.toNat)
    (ascii : d.toNat < 0x80) (outside : d ∉ t) : b ∉ encode t := by
  intro member
  obtain ⟨c, inside, member⟩ := List.mem_flatMap.1 member
  rw [eq_of_mem_encodeChar member byte ascii] at inside
  exact outside inside

theorem encode_intercalate (glue : Text) (pieces : List Text) :
    encode (glue.intercalate pieces) = (encode glue).intercalate (pieces.map encode) := by
  induction pieces with
  | nil => rfl
  | cons piece pieces ih =>
    by_cases last : pieces = []
    · subst last
      simp
    · rw [List.map_cons, List.intercalate_cons_of_ne_nil last,
        List.intercalate_cons_of_ne_nil (by simpa using last), encode_append, encode_append, ih]

end Utf8

namespace Language

def lineFeed : UInt8 := 0x0a

def slash : UInt8 := 0x2f

def markLine (marker line : Bytes) : Bytes :=
  if [slash, slash].isPrefixOf line then marker ++ line.drop 2 else line

def markLines (marker bytes : Bytes) : Bytes :=
  [lineFeed].intercalate ((bytes.splitOn lineFeed).map (markLine marker))

/-- A template in a language's own comments, as bytes. -/
def commentBytes (l : Language) (template : Bytes) : Bytes :=
  markLines (Utf8.encode l.marker) template

theorem splitOn_encode (t : Text) :
    (Utf8.encode t).splitOn lineFeed = (t.splitOn '\n').map Utf8.encode := by
  have lines : Utf8.encode t = [lineFeed].intercalate ((t.splitOn '\n').map Utf8.encode) := by
    rw [← show Utf8.encode ['\n'] = [lineFeed] from rfl, ← Utf8.encode_intercalate,
      List.intercalate_splitOn]
  rw [lines]
  apply List.splitOn_intercalate
  · intro bytes member
    obtain ⟨line, here, rfl⟩ := List.mem_map.1 member
    exact Utf8.not_mem_encode (d := '\n') rfl (by decide) (Text.not_mem_of_mem_splitOn here)
  · simp [List.splitOn_ne_nil]

theorem slashes_prefix_encode {line : Text} :
    [slash, slash] <+: Utf8.encode line ↔ ['/', '/'] <+: line := by
  constructor
  · intro given
    obtain ⟨bytes, written⟩ := given
    obtain ⟨rest, rfl, more⟩ := Utf8.encode_eq_cons (d := '/') written.symm rfl (by decide)
    obtain ⟨rest, rfl, _⟩ := Utf8.encode_eq_cons (d := '/') more rfl (by decide)
    exact ⟨rest, rfl⟩
  · intro given
    obtain ⟨rest, rfl⟩ := given
    exact ⟨Utf8.encode rest, (Utf8.encode_append ['/', '/'] rest).symm⟩

theorem encode_marked (marker line : Text) :
    Utf8.encode (marked marker line) = markLine (Utf8.encode marker) (Utf8.encode line) := by
  unfold marked markLine
  simp only [List.isPrefixOf_iff_prefix, slashes_prefix_encode]
  split
  case isTrue slashes =>
    obtain ⟨rest, rfl⟩ := slashes
    rw [Utf8.encode_append, Utf8.encode_append]
    rfl
  case isFalse => rfl

theorem encode_comment (l : Language) (template : Text) :
    Utf8.encode (l.comment template) = l.commentBytes (Utf8.encode template) := by
  rw [comment_eq, Utf8.encode_intercalate, commentBytes, markLines, splitOn_encode, List.map_map,
    List.map_map]
  have same : Utf8.encode ∘ marked l.marker = markLine (Utf8.encode l.marker) ∘ Utf8.encode :=
    funext fun line => encode_marked l.marker line
  rw [same]
  rfl

theorem commentBytes_cFamily (template : Text) :
    commentBytes .cFamily (Utf8.encode template) = Utf8.encode template := by
  rw [← encode_comment]
  rfl

end Language

end LicenseHeaders
