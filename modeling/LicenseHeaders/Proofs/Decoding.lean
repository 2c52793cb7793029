import LicenseHeaders.Config
import LicenseHeaders.Proofs.Utf8

/-!
Two ways to read bytes. The strict one accepts exactly what `encode` writes. The lenient one reads
two pieces apart from each other wherever the second does not start in the middle of a sequence, so
a text stands in what a source file is read as if and only if its bytes stand in the file.
-/
namespace LicenseHeaders

namespace Utf8

theorem encode_append (s t : Text) : encode (s ++ t) = encode s ++ encode t := by
  simp [encode]

theorem decodeFrom_append (position : Nat) (skipped rest : Bytes) :
    decodeFrom position skipped.length (skipped ++ rest) =
      decodeFrom (position + skipped.length) 0 rest := by
  induction skipped generalizing position with
  | nil => rfl
  | cons b skipped ih =>
    rw [List.length_cons, List.cons_append, decodeFrom, ih]
    congr 1
    omega

theorem decodeFrom_encode (position : Nat) (t : Text) : decodeFrom position 0 (encode t) = .ok t := by
  induction t generalizing position with
  | nil => rfl
  | cons c t ih =>
    obtain ⟨first, tail, encoded, read⟩ := read_encodeChar c
    have whole : encode (c :: t) = first :: (tail ++ encode t) := by
      simp [encode, encoded]
    simp only [whole, decodeFrom, read]
    rw [Nat.add_sub_cancel, decodeFrom_append, ih]
    rfl

theorem eq_encode_of_decodeFrom {position : Nat} {bytes : Bytes} {t : Text}
    (h : decodeFrom position 0 bytes = .ok t) : bytes = encode t := by
  induction n : bytes.length using Nat.strongRecOn generalizing position bytes t with
  | ind n ih =>
    subst n
    cases bytes with
    | nil =>
      cases h
      rfl
    | cons first rest =>
      simp only [decodeFrom] at h
      split at h
      case h_1 c width found =>
        obtain ⟨tail, rest, rfl, rfl, encoded⟩ := read_scalar found
        rw [Nat.add_sub_cancel, decodeFrom_append] at h
        have shorter : rest.length < (first :: (tail ++ rest)).length := by
          rw [List.length_cons, List.length_append]
          omega
        cases more : decodeFrom (position + 1 + tail.length) 0 rest with
        | error malformed =>
          rw [more] at h
          cases h
        | ok t' =>
          rw [more] at h
          cases h
          rw [ih rest.length shorter more rfl]
          simp [encode, encoded]
      case h_2 => cases h

theorem decode_eq_ok_iff {bytes : Bytes} {t : Text} : decode bytes = .ok t ↔ bytes = encode t := by
  constructor
  · intro h
    exact eq_encode_of_decodeFrom h
  · intro same
    subst same
    exact decodeFrom_encode 0 t

/-- A byte that goes on with a sequence and cannot start one. -/
def Continues (b : UInt8) : Prop := 0x80 ≤ b.toNat ∧ b.toNat ≤ 0xbf

theorem readTail_append (more low high payload taken : Nat) (bytes rest : Bytes)
    (above : 0x80 ≤ low) (below : high ≤ 0xbf) (start : ∀ b ∈ rest.head?, ¬ Continues b) :
    (∃ c width, readTail more low high payload taken bytes = .scalar c width ∧
        readTail more low high payload taken (bytes ++ rest) = .scalar c width) ∨
      ∃ width reason width' reason',
        readTail more low high payload taken bytes = .malformed width reason ∧
        readTail more low high payload taken (bytes ++ rest) = .malformed width' reason' := by
  induction more generalizing low high payload taken bytes with
  | zero => exact .inl ⟨_, _, rfl, rfl⟩
  | succ more ih =>
    cases bytes with
    | nil =>
      refine .inr ⟨taken, .unexpectedEnd, taken, ?_⟩
      cases rest with
      | nil => exact ⟨.unexpectedEnd, rfl, rfl⟩
      | cons b rest =>
        have anew := start b rfl
        refine ⟨.invalidContinuation, rfl, ?_⟩
        rw [List.nil_append, readTail, if_neg]
        intro inside
        exact anew ⟨by omega, by omega⟩
    | cons b bytes =>
      rw [List.cons_append]
      simp only [readTail]
      split
      · exact ih 0x80 0xbf _ _ bytes (by omega) (by omega)
      · exact .inr ⟨_, _, _, _, rfl, rfl⟩

theorem lead?_range {b : Nat} {lead : Lead} (h : lead? b = some lead) :
    0x80 ≤ lead.low ∧ lead.high ≤ 0xbf := by
  rcases lead?_cases h with ⟨_, _, _, _, rfl⟩ | ⟨_, _, _, rfl⟩ | ⟨_, _, _, rfl⟩
  · exact ⟨Nat.le_refl _, Nat.le_refl _⟩
  · constructor <;> dsimp only <;> split <;> omega
  · constructor <;> dsimp only <;> split <;> omega

theorem read_append (first : UInt8) (bytes rest : Bytes) (start : ∀ b ∈ rest.head?, ¬ Continues b) :
    (∃ c width, read first bytes = .scalar c width ∧ read first (bytes ++ rest) = .scalar c width) ∨
      ∃ width reason width' reason', read first bytes = .malformed width reason ∧
        read first (bytes ++ rest) = .malformed width' reason' := by
  unfold read
  split
  · exact .inl ⟨_, _, rfl, rfl⟩
  · cases found : lead? first.toNat with
    | none => exact .inr ⟨_, _, _, _, rfl, rfl⟩
    | some lead =>
      obtain ⟨above, below⟩ := lead?_range found
      exact readTail_append lead.more lead.low lead.high lead.payload 1 bytes rest above below start

theorem not_continues_of_encode (t : Text) : ∀ b ∈ (encode t).head?, ¬ Continues b := by
  intro b member
  cases t with
  | nil => cases member
  | cons c t =>
    have range := toNat_range c
    simp only [encode, List.flatMap_cons, encodeChar] at member
    intro continues
    obtain ⟨above, below⟩ := continues
    split at member
    · cases member
      rw [toNat_ofNat_of_lt (by omega)] at above
      omega
    · split at member
      · cases member
        rw [toNat_ofNat_of_lt (by omega)] at below
        omega
      · split at member
        · cases member
          rw [toNat_ofNat_of_lt (by omega)] at below
          omega
        · cases member
          rw [toNat_ofNat_of_lt (by omega)] at below
          omega

end Utf8

namespace SourceText

theorem ofText_append (s t : Text) : ofText (s ++ t) = ofText s ++ ofText t := by
  simp [ofText]

theorem ofBytes_append (bytes rest : Bytes) (start : ∀ b ∈ rest.head?, ¬ Utf8.Continues b) :
    ofBytes (bytes ++ rest) = ofBytes bytes ++ ofBytes rest := by
  unfold ofBytes
  induction n : bytes.length using Nat.strongRecOn generalizing bytes with
  | ind n ih =>
    subst n
    cases bytes with
    | nil => rfl
    | cons first bytes =>
      rw [List.cons_append]
      rcases Utf8.read_append first bytes rest start with ⟨c, width, alone, joined⟩ |
        ⟨_, _, _, _, alone, joined⟩
      · obtain ⟨tail, after, rfl, rfl, _⟩ := Utf8.read_scalar alone
        simp only [ofBytesFrom, alone, joined]
        have shorter : after.length < (first :: (tail ++ after)).length := by
          rw [List.length_cons, List.length_append]
          omega
        rw [Nat.add_sub_cancel, List.append_assoc, ofBytesFrom_append, ofBytesFrom_append,
          ih after.length shorter after rfl]
        rfl
      · simp only [ofBytesFrom, alone, joined]
        rw [ih bytes.length (by simp) bytes rfl]
        rfl

theorem occursIn_ofBytes (t : Text) (bytes : Bytes) :
    occursIn (ofText t) (ofBytes bytes) = true ↔ Utf8.encode t <:+: bytes := by
  rw [occursIn_iff]
  constructor
  · intro given
    obtain ⟨before, after, eq⟩ := given
    refine ⟨toBytes before, toBytes after, ?_⟩
    have written := congrArg toBytes eq
    rw [toBytes_ofBytes, toBytes_append, toBytes_append, toBytes_ofText] at written
    exact written.symm
  · intro given
    obtain ⟨before, after, rfl⟩ := given
    cases t with
    | nil => exact ⟨[], ofBytes (before ++ after), by simp [ofText, Utf8.encode]⟩
    | cons c t =>
      refine ⟨ofBytes before, ofBytes after, ?_⟩
      have start : ∀ b ∈ (Utf8.encode (c :: t) ++ after).head?, ¬ Utf8.Continues b := by
        obtain ⟨first, tail, encoded, _⟩ := Utf8.read_encodeChar c
        have anew := Utf8.not_continues_of_encode (c :: t)
        simp only [Utf8.encode, List.flatMap_cons, encoded, List.cons_append, List.head?_cons]
          at anew ⊢
        exact anew
      rw [List.append_assoc, ofBytes_append _ _ start, ofBytes_encode_append, List.append_assoc]

end SourceText

namespace Config

theorem needsHeader_ofBytes {c : Config} {rel : Text} {header : Header} {bytes : Bytes} :
    c.needsHeader rel (.ofBytes bytes) header = true ↔
      ¬ Utf8.encode header.license <:+: bytes ∧
        c.exempts (Relative.directory rel) rel = false := by
  rw [needsHeader, Bool.and_eq_true, Bool.not_eq_true', Bool.not_eq_true',
    ← SourceText.occursIn_ofBytes, Bool.not_eq_true]

/-- The bytes of a file decide whether a text stands in it, also where they are no UTF-8. -/
theorem presence_iff_bytes (t : Text) (bytes : Bytes) :
    (occursIn (SourceText.ofText t) (SourceText.ofBytes bytes) = true ↔
      Utf8.encode t <:+: bytes) ∧
    ∀ (c : Config) (rel modeline : Text),
      c.needsHeader rel (.ofBytes bytes) ⟨t, modeline⟩ = true ↔
        ¬ Utf8.encode t <:+: bytes ∧ c.exempts (Relative.directory rel) rel = false :=
  ⟨SourceText.occursIn_ofBytes t bytes, fun _ _ _ => needsHeader_ofBytes⟩

end Config

end LicenseHeaders
