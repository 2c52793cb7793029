import LicenseHeaders.Text.Basic

/-!
UTF-8. `encode` writes a text as bytes. `read` looks at the front of a byte list: it finds a scalar
value and the width of its encoding, or the longest beginning of a sequence that is there, with the
reason why the sequence is refused. `decode` reads a whole list strictly and reports the position
and the width of the first refused block.
-/
namespace LicenseHeaders

abbrev Bytes := List UInt8

namespace Utf8

def continuation (n : Nat) : UInt8 := UInt8.ofNat (0x80 + n % 0x40)

def encodeChar (c : Char) : Bytes :=
  let n := c.toNat
  if n < 0x80 then [UInt8.ofNat n]
  else if n < 0x800 then [UInt8.ofNat (0xc0 + n / 0x40), continuation n]
  else if n < 0x10000 then
    [UInt8.ofNat (0xe0 + n / 0x1000), continuation (n / 0x40), continuation n]
  else
    [UInt8.ofNat (0xf0 + n / 0x40000), continuation (n / 0x1000), continuation (n / 0x40),
      continuation n]

def encode (t : Text) : Bytes := t.flatMap encodeChar

def size (t : Text) : Nat := (encode t).length

/-- A first byte of a longer sequence: its payload, the range of the byte that may follow it, and
the number of bytes that must follow. The ranges leave out overlong forms, surrogates and values
above U+10FFFF. -/
structure Lead where
  payload : Nat
  low : Nat
  high : Nat
  more : Nat
deriving DecidableEq, Repr

def lead? (b : Nat) : Option Lead :=
  if b < 0xc2 then none
  else if b < 0xe0 then some ⟨b - 0xc0, 0x80, 0xbf, 1⟩
  else if b = 0xe0 then some ⟨0, 0xa0, 0xbf, 2⟩
  else if b = 0xed then some ⟨0xd, 0x80, 0x9f, 2⟩
  else if b < 0xf0 then some ⟨b - 0xe0, 0x80, 0xbf, 2⟩
  else if b = 0xf0 then some ⟨0, 0x90, 0xbf, 3⟩
  else if b < 0xf4 then some ⟨b - 0xf0, 0x80, 0xbf, 3⟩
  else if b = 0xf4 then some ⟨4, 0x80, 0x8f, 3⟩
  else none

inductive Reason where
  | invalidStart
  | invalidContinuation
  | unexpectedEnd
deriving DecidableEq, Repr

inductive Reading where
  | scalar (c : Char) (width : Nat)
  | malformed (width : Nat) (reason : Reason)
deriving DecidableEq, Repr

/-- Reads the bytes after the first. `taken` counts the bytes read, the first included. -/
def readTail : (more low high payload taken : Nat) → Bytes → Reading
  | 0, _, _, payload, taken, _ => .scalar (Char.ofNat payload) taken
  | _ + 1, _, _, _, taken, [] => .malformed taken .unexpectedEnd
  | more + 1, low, high, payload, taken, b :: rest =>
    if low ≤ b.toNat ∧ b.toNat ≤ high then
      readTail more 0x80 0xbf (payload * 0x40 + b.toNat % 0x40) (taken + 1) rest
    else .malformed taken .invalidContinuation

def read (first : UInt8) (rest : Bytes) : Reading :=
  if first.toNat < 0x80 then .scalar (Char.ofNat first.toNat) 1
  else match lead? first.toNat with
    | none => .malformed 1 .invalidStart
    | some lead => readTail lead.more lead.low lead.high lead.payload 1 rest

structure Malformed where
  position : Nat
  width : Nat
  first : UInt8
  reason : Reason
deriving DecidableEq, Repr

def Reason.text : Reason → Text
  | .invalidStart => "invalid start byte"
  | .invalidContinuation => "invalid continuation byte"
  | .unexpectedEnd => "unexpected end of data"

def Malformed.message (m : Malformed) : Text :=
  let block : Text :=
    if m.width = 1 then
      "byte 0x" ++ Text.hexDigits 2 m.first.toNat ++ " in position " ++ Text.decimal m.position
    else
      "bytes in position " ++ Text.decimal m.position ++ "-" ++
        Text.decimal (m.position + m.width - 1)
  "'utf-8' codec can't decode " ++ block ++ ": " ++ m.reason.text

/-- Reads on behind `skip` bytes that belong to a sequence already read. -/
def decodeFrom (position skip : Nat) : Bytes → Except Malformed Text
  | [] => .ok []
  | first :: rest =>
    match skip with
    | skip + 1 => decodeFrom (position + 1) skip rest
    | 0 =>
      match read first rest with
      | .scalar c width => (decodeFrom (position + 1) (width - 1) rest).map (c :: ·)
      | .malformed width reason => .error ⟨position, width, first, reason⟩

def decode (bytes : Bytes) : Except Malformed Text := decodeFrom 0 0 bytes

end Utf8

end LicenseHeaders
