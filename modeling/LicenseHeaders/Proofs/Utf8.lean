import LicenseHeaders.Text.Source

/-!
UTF-8 read back. `read` undoes `encodeChar` whatever stands behind it, and what it reads is the
encoding of what it answers. Hence source bytes survive being read and written, and a text written
in front of any bytes is read in front of what those bytes are read as: no byte at the seam joins
with one before it.
-/
namespace LicenseHeaders

namespace Utf8

theorem toNat_ofNat_of_lt {n : Nat} (h : n < 0x100) : (UInt8.ofNat n).toNat = n := by
  rw [UInt8.toNat_ofNat']
  exact Nat.mod_eq_of_lt h

theorem toNat_continuation (n : Nat) : (continuation n).toNat = 0x80 + n % 0x40 :=
  toNat_ofNat_of_lt (by omega)

theorem eq_ofNat {b : UInt8} {n : Nat} (h : b.toNat = n) : b = UInt8.ofNat n := by
  rw [← h, UInt8.ofNat_toNat]

theorem eq_continuation {b : UInt8} {n : Nat} (low : 0x80 ≤ b.toNat) (high : b.toNat ≤ 0xbf)
    (payload : n % 0x40 = b.toNat % 0x40) : b = continuation n :=
  eq_ofNat (by omega)

theorem toNat_range (c : Char) : c.toNat < 0xd800 ∨ 0xdfff < c.toNat ∧ c.toNat < 0x110000 :=
  c.valid

theorem toNat_ofNat {n : Nat} (h : n < 0xd800 ∨ 0xdfff < n ∧ n < 0x110000) :
    (Char.ofNat n).toNat = n := by
  have valid : n.isValidChar := h
  rw [Char.ofNat, dif_pos valid]
  rfl

theorem lead?_two {k : Nat} (low : 2 ≤ k) (high : k < 0x20) :
    lead? (0xc0 + k) = some ⟨k, 0x80, 0xbf, 1⟩ := by
  unfold lead?
  rw [if_neg (by omega), if_pos (by omega)]
  simp

theorem lead?_three : ∀ k < 0x10, lead? (0xe0 + k) =
    some ⟨k, if k = 0 then 0xa0 else 0x80, if k = 0xd then 0x9f else 0xbf, 2⟩ := by
  decide

theorem lead?_four : ∀ k < 5, lead? (0xf0 + k) =
    some ⟨k, if k = 0 then 0x90 else 0x80, if k = 4 then 0x8f else 0xbf, 3⟩ := by
  decide

theorem lead?_cases {b : Nat} {lead : Lead} (h : lead? b = some lead) :
    (∃ k, 2 ≤ k ∧ k < 0x20 ∧ b = 0xc0 + k ∧ lead = ⟨k, 0x80, 0xbf, 1⟩) ∨
    (∃ k, k < 0x10 ∧ b = 0xe0 + k ∧
      lead = ⟨k, if k = 0 then 0xa0 else 0x80, if k = 0xd then 0x9f else 0xbf, 2⟩) ∨
    (∃ k, k < 5 ∧ b = 0xf0 + k ∧
      lead = ⟨k, if k = 0 then 0x90 else 0x80, if k = 4 then 0x8f else 0xbf, 3⟩) := by
  by_cases two : b < 0xe0
  · by_cases low : b < 0xc2
    · simp [lead?, low] at h
    · obtain ⟨k, rfl⟩ : ∃ k, b = 0xc0 + k := ⟨b - 0xc0, by omega⟩
      rw [lead?_two (by omega) (by omega)] at h
      exact .inl ⟨k, by omega, by omega, rfl, (Option.some.inj h).symm⟩
  · by_cases three : b < 0xf0
    · obtain ⟨k, rfl⟩ : ∃ k, b = 0xe0 + k := ⟨b - 0xe0, by omega⟩
      rw [lead?_three k (by omega)] at h
      exact .inr (.inl ⟨k, by omega, rfl, (Option.some.inj h).symm⟩)
    · by_cases four : b < 0xf5
      · obtain ⟨k, rfl⟩ : ∃ k, b = 0xf0 + k := ⟨b - 0xf0, by omega⟩
        rw [lead?_four k (by omega)] at h
        exact .inr (.inr ⟨k, by omega, rfl, (Option.some.inj h).symm⟩)
      · unfold lead? at h
        rw [if_neg (by omega), if_neg (by omega), if_neg (by omega), if_neg (by omega),
          if_neg (by omega), if_neg (by omega), if_neg (by omega), if_neg (by omega)] at h
        cases h

theorem readTail_continuation {more low high payload taken n : Nat} (rest : Bytes)
    (above : low ≤ 0x80 + n % 0x40) (below : 0x80 + n % 0x40 ≤ high) :
    readTail (more + 1) low high payload taken (continuation n :: rest) =
      readTail more 0x80 0xbf (payload * 0x40 + n % 0x40) (taken + 1) rest := by
  have byte := toNat_continuation n
  simp only [readTail, byte, above, below, and_self, if_true]
  congr 1
  omega

theorem readTail_scalar {more low high payload taken width : Nat} {bytes : Bytes} {c : Char}
    (h : readTail (more + 1) low high payload taken bytes = .scalar c width) :
    ∃ b rest, bytes = b :: rest ∧ low ≤ b.toNat ∧ b.toNat ≤ high ∧
      readTail more 0x80 0xbf (payload * 0x40 + b.toNat % 0x40) (taken + 1) rest =
        .scalar c width := by
  cases bytes with
  | nil => cases h
  | cons b rest =>
    simp only [readTail] at h
    split at h
    case isTrue inside => exact ⟨b, rest, rfl, inside.1, inside.2, h⟩
    case isFalse => cases h

theorem read_encodeChar (c : Char) : ∃ first tail, encodeChar c = first :: tail ∧
    ∀ rest, read first (tail ++ rest) = .scalar c (tail.length + 1) := by
  have range := toNat_range c
  by_cases one : c.toNat < 0x80
  · refine ⟨UInt8.ofNat c.toNat, [], by simp [encodeChar, one], fun rest => ?_⟩
    simp [read, toNat_ofNat_of_lt (show c.toNat < 0x100 by omega), one]
  by_cases two : c.toNat < 0x800
  · refine ⟨UInt8.ofNat (0xc0 + c.toNat / 0x40), [continuation c.toNat],
      by simp [encodeChar, one, two], fun rest => ?_⟩
    simp only [read, toNat_ofNat_of_lt (show 0xc0 + c.toNat / 0x40 < 0x100 by omega)]
    rw [if_neg (by omega), lead?_two (by omega) (by omega)]
    simp only [List.cons_append, List.nil_append]
    rw [readTail_continuation rest (by omega) (by omega), readTail]
    rw [show c.toNat / 0x40 * 0x40 + c.toNat % 0x40 = c.toNat by omega, Char.ofNat_toNat]
    rfl
  by_cases three : c.toNat < 0x10000
  · refine ⟨UInt8.ofNat (0xe0 + c.toNat / 0x1000), [continuation (c.toNat / 0x40),
      continuation c.toNat], by simp [encodeChar, one, two, three], fun rest => ?_⟩
    simp only [read, toNat_ofNat_of_lt (show 0xe0 + c.toNat / 0x1000 < 0x100 by omega)]
    rw [if_neg (by omega), lead?_three _ (by omega)]
    simp only [List.cons_append, List.nil_append]
    rw [readTail_continuation _ (by split <;> omega) (by split <;> omega),
      readTail_continuation rest (by omega) (by omega), readTail]
    rw [show (c.toNat / 0x1000 * 0x40 + c.toNat / 0x40 % 0x40) * 0x40 + c.toNat % 0x40 = c.toNat
      by omega, Char.ofNat_toNat]
    rfl
  · refine ⟨UInt8.ofNat (0xf0 + c.toNat / 0x40000), [continuation (c.toNat / 0x1000),
      continuation (c.toNat / 0x40), continuation c.toNat],
      by simp [encodeChar, one, two, three], fun rest => ?_⟩
    simp only [read, toNat_ofNat_of_lt (show 0xf0 + c.toNat / 0x40000 < 0x100 by omega)]
    rw [if_neg (by omega), lead?_four _ (by omega)]
    simp only [List.cons_append, List.nil_append]
    rw [readTail_continuation _ (by split <;> omega) (by split <;> omega),
      readTail_continuation _ (by omega) (by omega),
      readTail_continuation rest (by omega) (by omega), readTail]
    rw [show ((c.toNat / 0x40000 * 0x40 + c.toNat / 0x1000 % 0x40) * 0x40 +
      c.toNat / 0x40 % 0x40) * 0x40 + c.toNat % 0x40 = c.toNat by omega, Char.ofNat_toNat]
    rfl

theorem read_scalar {first : UInt8} {bytes : Bytes} {c : Char} {width : Nat}
    (h : read first bytes = .scalar c width) :
    ∃ tail rest, bytes = tail ++ rest ∧ width = tail.length + 1 ∧ encodeChar c = first :: tail := by
  unfold read at h
  split at h
  case isTrue one =>
    cases h
    refine ⟨[], bytes, rfl, rfl, ?_⟩
    have code := toNat_ofNat (n := first.toNat) (by omega)
    simp [encodeChar, code, one]
  case isFalse one =>
    split at h
    case h_1 => cases h
    case h_2 lead found =>
    rcases lead?_cases found with ⟨k, low, high, byte, rfl⟩ | ⟨k, high, byte, rfl⟩ |
      ⟨k, high, byte, rfl⟩
    · obtain ⟨b, rest, rfl, above, below, h⟩ := readTail_scalar h
      simp only [readTail, Reading.scalar.injEq] at h
      obtain ⟨rfl, rfl⟩ := h
      refine ⟨[b], rest, rfl, rfl, ?_⟩
      have code := toNat_ofNat (n := k * 0x40 + b.toNat % 0x40) (by omega)
      simp only [encodeChar, code]
      rw [if_neg (by omega), if_pos (by omega), ← eq_ofNat (b := first) (by omega),
        ← eq_continuation (b := b) above below (by omega)]
    · obtain ⟨b, rest, rfl, above, below, h⟩ := readTail_scalar h
      obtain ⟨b', rest, rfl, above', below', h⟩ := readTail_scalar h
      simp only [readTail, Reading.scalar.injEq] at h
      obtain ⟨rfl, rfl⟩ := h
      refine ⟨[b, b'], rest, rfl, rfl, ?_⟩
      have inside : 0x80 ≤ b.toNat ∧ b.toNat ≤ 0xbf ∧ (k = 0 → 0xa0 ≤ b.toNat) ∧
          (k = 0xd → b.toNat ≤ 0x9f) := by
        dsimp only at above below
        split at above <;> split at below <;> omega
      have code := toNat_ofNat (n := (k * 0x40 + b.toNat % 0x40) * 0x40 + b'.toNat % 0x40)
        (by omega)
      simp only [encodeChar, code]
      rw [if_neg (by omega), if_neg (by omega), if_pos (by omega),
        ← eq_ofNat (b := first) (by omega),
        ← eq_continuation (b := b) inside.1 inside.2.1 (by omega),
        ← eq_continuation (b := b') above' below' (by omega)]
    · obtain ⟨b, rest, rfl, above, below, h⟩ := readTail_scalar h
      obtain ⟨b', rest, rfl, above', below', h⟩ := readTail_scalar h
      obtain ⟨b'', rest, rfl, above'', below'', h⟩ := readTail_scalar h
      simp only [readTail, Reading.scalar.injEq] at h
      obtain ⟨rfl, rfl⟩ := h
      refine ⟨[b, b', b''], rest, rfl, rfl, ?_⟩
      have inside : 0x80 ≤ b.toNat ∧ b.toNat ≤ 0xbf ∧ (k = 0 → 0x90 ≤ b.toNat) ∧
          (k = 4 → b.toNat ≤ 0x8f) := by
        dsimp only at above below
        split at above <;> split at below <;> omega
      have code := toNat_ofNat (n := ((k * 0x40 + b.toNat % 0x40) * 0x40 + b'.toNat % 0x40) * 0x40 +
        b''.toNat % 0x40) (by omega)
      simp only [encodeChar, code]
      rw [if_neg (by omega), if_neg (by omega), if_neg (by omega),
        ← eq_ofNat (b := first) (by omega),
        ← eq_continuation (b := b) inside.1 inside.2.1 (by omega),
        ← eq_continuation (b := b') above' below' (by omega),
        ← eq_continuation (b := b'') above'' below'' (by omega)]

end Utf8

namespace SourceText

theorem ofBytesFrom_append (skipped rest : Bytes) :
    ofBytesFrom skipped.length (skipped ++ rest) = ofBytesFrom 0 rest := by
  induction skipped with
  | nil => rfl
  | cons b skipped ih => simpa [ofBytesFrom] using ih

theorem toBytes_ofBytes (bytes : Bytes) : toBytes (ofBytes bytes) = bytes := by
  unfold ofBytes
  induction n : bytes.length using Nat.strongRecOn generalizing bytes with
  | ind n ih =>
    subst n
    cases bytes with
    | nil => rfl
    | cons first rest =>
      simp only [ofBytesFrom]
      split
      case h_1 c width found =>
        obtain ⟨tail, rest, rfl, rfl, encoded⟩ := Utf8.read_scalar found
        rw [Nat.add_sub_cancel, ofBytesFrom_append]
        have shorter : rest.length < (first :: (tail ++ rest)).length := by
          rw [List.length_cons, List.length_append]
          omega
        have more := ih rest.length shorter rest rfl
        simp only [toBytes, List.flatMap_cons, unitBytes, encoded] at more ⊢
        rw [more]
        simp
      case h_2 =>
        have more := ih rest.length (by simp) rest rfl
        simp only [toBytes, List.flatMap_cons, unitBytes] at more ⊢
        rw [more]
        rfl

theorem ofBytes_encode_append (t : Text) (bytes : Bytes) :
    ofBytes (Utf8.encode t ++ bytes) = ofText t ++ ofBytes bytes := by
  induction t with
  | nil => rfl
  | cons c t ih =>
    obtain ⟨first, tail, encoded, read⟩ := Utf8.read_encodeChar c
    have whole : Utf8.encode (c :: t) ++ bytes = first :: (tail ++ (Utf8.encode t ++ bytes)) := by
      simp [Utf8.encode, encoded]
    rw [whole]
    simp only [ofBytes, ofBytesFrom, read]
    rw [Nat.add_sub_cancel, ofBytesFrom_append]
    exact congrArg (SourceUnit.scalar c :: ·) ih

end SourceText

end LicenseHeaders
