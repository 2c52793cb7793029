import Mathlib.Data.List.Forall2
import LicenseHeaders.Proofs.Entry
import LicenseHeaders.Proofs.Loading

/-!
What a strict reading accepts and what it refuses. A sequence is well-formed if its bytes lie in the
ranges of one of nine forms; these are the encodings of characters, and a template is read if and
only if it is made of them. Otherwise the refused block stands right behind the longest well-formed
beginning. It is as much of a sequence as there is, or one byte with which no sequence starts.
-/
namespace LicenseHeaders

namespace Utf8

/-- The ranges in which the bytes of a sequence lie, with both ends. They have no room for an
overlong form, for a surrogate or for a value above U+10FFFF. -/
def forms : List (List (Nat × Nat)) :=
  [[(0x00, 0x7f)],
   [(0xc2, 0xdf), (0x80, 0xbf)],
   [(0xe0, 0xe0), (0xa0, 0xbf), (0x80, 0xbf)],
   [(0xe1, 0xec), (0x80, 0xbf), (0x80, 0xbf)],
   [(0xed, 0xed), (0x80, 0x9f), (0x80, 0xbf)],
   [(0xee, 0xef), (0x80, 0xbf), (0x80, 0xbf)],
   [(0xf0, 0xf0), (0x90, 0xbf), (0x80, 0xbf), (0x80, 0xbf)],
   [(0xf1, 0xf3), (0x80, 0xbf), (0x80, 0xbf), (0x80, 0xbf)],
   [(0xf4, 0xf4), (0x80, 0x8f), (0x80, 0xbf), (0x80, 0xbf)]]

def Within (range : Nat × Nat) (b : UInt8) : Prop := range.1 ≤ b.toNat ∧ b.toNat ≤ range.2

def IsSequence (bytes : Bytes) : Prop := ∃ form ∈ forms, List.Forall₂ Within form bytes

def WellFormed (bytes : Bytes) : Prop :=
  ∃ sequences : List Bytes, (∀ q ∈ sequences, IsSequence q) ∧ bytes = sequences.flatten

/-- There is a sequence that begins like this. -/
def Begins (bytes : Bytes) : Prop := ∃ q, IsSequence q ∧ bytes <+: q

theorem forms_inhabited : ∀ form ∈ forms, ∀ range ∈ form, range.1 ≤ range.2 ∧ range.1 < 0x100 := by
  decide

theorem forms_continue : ∀ form ∈ forms, ∀ range ∈ form.tail, 0x80 ≤ range.1 ∧ range.2 ≤ 0xbf := by
  decide

def formsFrom (first : Nat) : List (List (Nat × Nat)) :=
  (forms.filter fun form => form.head?.any fun range => range.1 ≤ first && first ≤ range.2).map
    List.tail

def followers : (more low high : Nat) → List (Nat × Nat)
  | 0, _, _ => []
  | more + 1, low, high => (low, high) :: followers more 0x80 0xbf

def Lead.followers (lead : Lead) : List (Nat × Nat) := Utf8.followers lead.more lead.low lead.high

theorem formsFrom_eq : ∀ first < 0x100, formsFrom first =
    if first < 0x80 then [[]] else ((lead? first).map Lead.followers).toList := by
  decide +kernel

theorem isSequence_cons {first : UInt8} {tail : Bytes} :
    IsSequence (first :: tail) ↔ ∃ form ∈ formsFrom first.toNat, List.Forall₂ Within form tail := by
  constructor
  · intro given
    obtain ⟨form, member, fits⟩ := given
    cases fits with
    | cons inside rest =>
      refine ⟨_, List.mem_map.2 ⟨_, List.mem_filter.2 ⟨member, ?_⟩, rfl⟩, rest⟩
      simpa [Within] using inside
  · intro given
    obtain ⟨form, member, fits⟩ := given
    obtain ⟨whole, kept, rfl⟩ := List.mem_map.1 member
    obtain ⟨member, starts⟩ := List.mem_filter.1 kept
    cases whole with
    | nil => cases starts
    | cons range rest =>
      exact ⟨range :: rest, member, .cons (by simpa [Within] using starts) fits⟩

/-- Reading along a form has come to a byte that does not fit, or to the end. -/
def Stuck (form : List (Nat × Nat)) (block rest : Bytes) (reason : Reason) : Prop :=
  ∃ before range ahead, form = before ++ range :: ahead ∧ List.Forall₂ Within before block ∧
    (∀ b ∈ rest.head?, ¬ Within range b) ∧
    reason = if rest = [] then .unexpectedEnd else .invalidContinuation

theorem Stuck.cons {form : List (Nat × Nat)} {range : Nat × Nat} {b : UInt8} {block rest : Bytes}
    {reason : Reason} (h : Stuck form block rest reason) (inside : Within range b) :
    Stuck (range :: form) (b :: block) rest reason := by
  obtain ⟨before, next, ahead, rfl, fits, stops, why⟩ := h
  exact ⟨range :: before, next, ahead, rfl, .cons inside fits, stops, why⟩

theorem readTail_ends (more low high payload taken : Nat) (bytes : Bytes) :
    ∃ block rest, bytes = block ++ rest ∧
      match readTail more low high payload taken bytes with
      | .scalar _ width =>
        width = taken + block.length ∧ List.Forall₂ Within (followers more low high) block
      | .malformed width reason =>
        width = taken + block.length ∧ Stuck (followers more low high) block rest reason := by
  induction more generalizing low high payload taken bytes with
  | zero => exact ⟨[], bytes, rfl, rfl, .nil⟩
  | succ more ih =>
    cases bytes with
    | nil => exact ⟨[], [], rfl, rfl, [], _, _, rfl, .nil, by simp, rfl⟩
    | cons b bytes =>
      by_cases inside : low ≤ b.toNat ∧ b.toNat ≤ high
      · obtain ⟨block, rest, rfl, ends⟩ :=
          ih 0x80 0xbf (payload * 0x40 + b.toNat % 0x40) (taken + 1) bytes
        refine ⟨b :: block, rest, rfl, ?_⟩
        rw [readTail, if_pos inside, List.length_cons, Nat.add_comm block.length, ← Nat.add_assoc]
        split at ends
        · exact ⟨ends.1, .cons inside ends.2⟩
        · exact ⟨ends.1, ends.2.cons inside⟩
      · refine ⟨[], b :: bytes, rfl, ?_⟩
        rw [readTail, if_neg inside]
        refine ⟨rfl, [], _, _, rfl, .nil, ?_, by simp⟩
        intro b' here
        cases here
        exact inside

theorem readTail_within (more low high payload taken : Nat) {bytes : Bytes}
    (fits : List.Forall₂ Within (followers more low high) bytes) :
    ∃ c, readTail more low high payload taken bytes = .scalar c (taken + bytes.length) := by
  induction more generalizing low high payload taken bytes with
  | zero =>
    cases fits
    exact ⟨_, rfl⟩
  | succ more ih =>
    cases fits with
    | @cons _ b _ bytes inside rest =>
      obtain ⟨c, read⟩ := ih 0x80 0xbf (payload * 0x40 + b.toNat % 0x40) (taken + 1) rest
      refine ⟨c, ?_⟩
      have inside' : low ≤ b.toNat ∧ b.toNat ≤ high := inside
      rw [readTail, if_pos inside', read, List.length_cons]
      congr 1
      omega

theorem read_ends (first : UInt8) (bytes : Bytes) :
    match read first bytes with
    | .scalar _ width => ∃ block rest, bytes = block ++ rest ∧ width = block.length + 1 ∧
        IsSequence (first :: block)
    | .malformed width reason =>
      (formsFrom first.toNat = [] ∧ width = 1 ∧ reason = .invalidStart) ∨
        ∃ form block rest, formsFrom first.toNat = [form] ∧ bytes = block ++ rest ∧
          width = block.length + 1 ∧ Stuck form block rest reason := by
  have known := formsFrom_eq first.toNat first.toNat_lt
  unfold read
  by_cases one : first.toNat < 0x80
  · rw [if_pos one] at known ⊢
    exact ⟨[], bytes, rfl, rfl, isSequence_cons.2 ⟨[], by simp [known], .nil⟩⟩
  · rw [if_neg one] at known ⊢
    cases found : lead? first.toNat with
    | none =>
      rw [found] at known
      exact .inl ⟨known, rfl, rfl⟩
    | some lead =>
      rw [found] at known
      obtain ⟨block, rest, rfl, ends⟩ :=
        readTail_ends lead.more lead.low lead.high lead.payload 1 bytes
      dsimp only
      split at ends
      · obtain ⟨width, fits⟩ := ends
        exact ⟨block, rest, rfl, width.trans (Nat.add_comm ..),
          isSequence_cons.2 ⟨lead.followers, by simp [known], fits⟩⟩
      · obtain ⟨width, stuck⟩ := ends
        exact .inr ⟨lead.followers, block, rest, known, rfl, width.trans (Nat.add_comm ..), stuck⟩

theorem read_of_isSequence {first : UInt8} {tail : Bytes} (h : IsSequence (first :: tail)) :
    ∃ c, read first tail = .scalar c (tail.length + 1) := by
  obtain ⟨form, member, fits⟩ := isSequence_cons.1 h
  rw [formsFrom_eq first.toNat first.toNat_lt] at member
  unfold read
  by_cases one : first.toNat < 0x80
  · rw [if_pos one, List.mem_singleton] at member
    subst member
    cases fits
    exact ⟨_, if_pos one⟩
  · rw [if_neg one] at member ⊢
    cases found : lead? first.toNat with
    | none => simp [found] at member
    | some lead =>
      obtain rfl : form = lead.followers := by simpa [found] using member
      obtain ⟨c, read⟩ := readTail_within lead.more lead.low lead.high lead.payload 1 fits
      exact ⟨c, by rw [Nat.add_comm]; exact read⟩

theorem isSequence_iff {bytes : Bytes} : IsSequence bytes ↔ ∃ c, bytes = encodeChar c := by
  constructor
  · intro given
    cases bytes with
    | nil =>
      obtain ⟨form, member, fits⟩ := given
      cases fits
      exact absurd member (by decide)
    | cons first tail =>
      obtain ⟨c, read⟩ := read_of_isSequence given
      obtain ⟨block, rest, rfl, width, encoded⟩ := read_scalar read
      obtain rfl : rest = [] := by simpa using width
      exact ⟨c, by rw [encoded, List.append_nil]⟩
  · intro given
    obtain ⟨c, rfl⟩ := given
    obtain ⟨first, tail, encoded, read⟩ := read_encodeChar c
    have ends := read_ends first (tail ++ [])
    rw [read] at ends
    obtain ⟨block, rest, cut, width, sequence⟩ := ends
    have lengths := congrArg List.length cut
    simp only [List.append_nil, List.length_append] at lengths
    obtain rfl : rest = [] := List.length_eq_zero_iff.1 (by omega)
    rw [List.append_nil, List.append_nil] at cut
    rwa [encoded, cut]

theorem wellFormed_iff {bytes : Bytes} : WellFormed bytes ↔ ∃ t, encode t = bytes := by
  constructor
  · intro given
    obtain ⟨sequences, all, rfl⟩ := given
    induction sequences with
    | nil => exact ⟨[], rfl⟩
    | cons q rest ih =>
      obtain ⟨c, rfl⟩ := isSequence_iff.1 (all q (List.mem_cons_self ..))
      obtain ⟨t, encoded⟩ := ih fun q member => all q (List.mem_cons_of_mem _ member)
      exact ⟨c :: t, by rw [List.flatten_cons, ← encoded]; simp [encode]⟩
  · intro given
    obtain ⟨t, rfl⟩ := given
    refine ⟨t.map encodeChar, ?_, List.flatMap_def⟩
    intro q member
    obtain ⟨c, _, rfl⟩ := List.mem_map.1 member
    exact isSequence_iff.2 ⟨c, rfl⟩

theorem decodeFrom_eq_error {position : Nat} {bytes : Bytes} {m : Malformed}
    (h : decodeFrom position 0 bytes = .error m) :
    ∃ t rest, bytes = encode t ++ m.first :: rest ∧ m.position = position + (encode t).length ∧
      read m.first rest = .malformed m.width m.reason := by
  induction n : bytes.length using Nat.strongRecOn generalizing position bytes with
  | ind n ih =>
    subst n
    cases bytes with
    | nil => cases h
    | cons first rest =>
      simp only [decodeFrom] at h
      split at h
      case h_2 width reason refused =>
        cases h
        exact ⟨[], rest, rfl, rfl, refused⟩
      case h_1 c width found =>
        obtain ⟨tail, rest, rfl, rfl, encoded⟩ := read_scalar found
        rw [Nat.add_sub_cancel, decodeFrom_append] at h
        have shorter : rest.length < (first :: (tail ++ rest)).length := by
          rw [List.length_cons, List.length_append]
          omega
        cases more : decodeFrom (position + 1 + tail.length) 0 rest with
        | ok t =>
          rw [more] at h
          cases h
        | error m' =>
          rw [more] at h
          cases h
          obtain ⟨t, rest', rfl, place, refused⟩ := ih rest.length shorter more rfl
          have whole : encode (c :: t) = first :: (tail ++ encode t) := by simp [encode, encoded]
          refine ⟨c :: t, rest', by simp [whole], ?_, refused⟩
          rw [place, whole, List.length_cons, List.length_append]
          omega

theorem begins_of_encode {t whole : Text} {bytes : Bytes}
    (same : encode t ++ bytes = encode whole) : ∃ more, whole = t ++ more ∧ bytes = encode more := by
  induction t generalizing whole with
  | nil => exact ⟨whole, rfl, same⟩
  | cons c t ih =>
    obtain ⟨first, tail, encoded, read⟩ := read_encodeChar c
    have here : encode (c :: t) ++ bytes = first :: (tail ++ (encode t ++ bytes)) := by
      simp [encode, encoded]
    rw [here] at same
    cases whole with
    | nil => cases same
    | cons c' whole =>
      obtain ⟨first', tail', encoded', read'⟩ := read_encodeChar c'
      have there : encode (c' :: whole) = first' :: (tail' ++ encode whole) := by
        simp [encode, encoded']
      rw [there, List.cons.injEq] at same
      obtain ⟨rfl, same⟩ := same
      have one := (read (encode t ++ bytes)).symm.trans (same ▸ read' (encode whole))
      obtain ⟨rfl, width⟩ := Reading.scalar.inj one
      obtain ⟨_, later⟩ := List.append_inj same (by omega)
      obtain ⟨more, rfl, rest⟩ := ih later
      exact ⟨more, rfl, rest⟩

theorem length_le_of_wellFormed {t : Text} {first : UInt8} {rest longer : Bytes} {width : Nat}
    {reason : Reason} (refused : read first rest = .malformed width reason)
    (begins : longer <+: encode t ++ first :: rest) (wellFormed : WellFormed longer) :
    longer.length ≤ (encode t).length := by
  by_contra goesOn
  obtain ⟨bytes, rfl⟩ : encode t <+: longer :=
    List.prefix_of_prefix_length_le (List.prefix_append _ _) begins (by omega)
  obtain ⟨whole, encoded⟩ := wellFormed_iff.1 wellFormed
  obtain ⟨more, _, rfl⟩ := begins_of_encode encoded.symm
  have begins : encode more <+: first :: rest := (List.prefix_append_right_inj _).1 begins
  cases more with
  | nil => exact goesOn (by simp [encode])
  | cons c more =>
    obtain ⟨first', tail, encoded, read⟩ := read_encodeChar c
    have there : encode (c :: more) = first' :: (tail ++ encode more) := by simp [encode, encoded]
    rw [there, List.cons_prefix_cons] at begins
    obtain ⟨rfl, after, rfl⟩ := begins
    rw [List.append_assoc, read] at refused
    cases refused

theorem exists_within (form : List (Nat × Nat))
    (inhabited : ∀ range ∈ form, range.1 ≤ range.2 ∧ range.1 < 0x100) :
    ∃ bytes, List.Forall₂ Within form bytes := by
  induction form with
  | nil => exact ⟨[], .nil⟩
  | cons range rest ih =>
    obtain ⟨bytes, fits⟩ := ih fun range member => inhabited range (List.mem_cons_of_mem _ member)
    obtain ⟨order, byte⟩ := inhabited range (List.mem_cons_self ..)
    refine ⟨UInt8.ofNat range.1 :: bytes, .cons ?_ fits⟩
    rw [Within, toNat_ofNat_of_lt byte]
    exact ⟨Nat.le_refl _, order⟩

theorem exists_range_of_mem {form : List (Nat × Nat)} {bytes : Bytes}
    (fits : List.Forall₂ Within form bytes) : ∀ b ∈ bytes, ∃ range ∈ form, Within range b := by
  induction fits with
  | nil => simp
  | @cons range b form bytes inside rest ih =>
    intro other member
    rcases List.mem_cons.1 member with rfl | later
    · exact ⟨range, by simp, inside⟩
    · obtain ⟨own, member, inside⟩ := ih other later
      exact ⟨own, List.mem_cons_of_mem _ member, inside⟩

theorem mem_formsFrom {first : Nat} {form : List (Nat × Nat)} (h : form ∈ formsFrom first) :
    ∃ whole ∈ forms, form = whole.tail := by
  obtain ⟨whole, kept, rfl⟩ := List.mem_map.1 h
  exact ⟨whole, (List.mem_filter.1 kept).1, rfl⟩

section Stuck

variable {form : List (Nat × Nat)} {first : UInt8} {block rest : Bytes} {reason : Reason}
variable (h : Stuck form block rest reason) (known : formsFrom first.toNat = [form])
include h known

theorem Stuck.begins : Begins (first :: block) := by
  obtain ⟨before, range, ahead, rfl, fits, _⟩ := h
  have member : before ++ range :: ahead ∈ formsFrom first.toNat := by simp [known]
  obtain ⟨whole, member', tail⟩ := mem_formsFrom member
  have inhabited : ∀ r ∈ range :: ahead, r.1 ≤ r.2 ∧ r.1 < 0x100 := by
    intro r later
    refine forms_inhabited whole member' r (List.mem_of_mem_tail ?_)
    rw [← tail]
    exact List.mem_append_right _ later
  obtain ⟨missing, fits'⟩ := exists_within (range :: ahead) inhabited
  exact ⟨first :: (block ++ missing), isSequence_cons.2 ⟨_, member, List.rel_append fits fits'⟩,
    missing, rfl⟩

theorem Stuck.maximal {longer : Bytes} (under : longer <+: first :: (block ++ rest))
    (begins : Begins longer) : longer.length ≤ (first :: block).length := by
  obtain ⟨before, range, ahead, rfl, fits, stops, _⟩ := h
  obtain ⟨q, sequence, goesOn⟩ := begins
  by_contra more
  obtain ⟨x, rfl⟩ : first :: block <+: longer :=
    List.prefix_of_prefix_length_le ⟨rest, rfl⟩ under (by omega)
  cases x with
  | nil => simp at more
  | cons b x =>
    obtain ⟨after, rfl⟩ := goesOn
    have whole : first :: block ++ b :: x ++ after = first :: (block ++ b :: (x ++ after)) := by simp
    rw [whole] at sequence
    obtain ⟨form, member, fits'⟩ := isSequence_cons.1 sequence
    rw [known, List.mem_singleton] at member
    subst member
    have next : b ∈ rest.head? := by
      rw [List.cons_append, List.cons_prefix_cons, List.prefix_append_right_inj] at under
      obtain ⟨_, rfl⟩ := under.2
      rfl
    have aligned := List.forall₂_drop before.length fits'
    rw [List.drop_left, fits.length_eq, List.drop_left] at aligned
    cases aligned with
    | cons inside _ => exact stops b next inside

theorem Stuck.continues : ∀ b ∈ block, Continues b := by
  obtain ⟨before, range, ahead, rfl, fits, _⟩ := h
  have member : before ++ range :: ahead ∈ formsFrom first.toNat := by simp [known]
  obtain ⟨whole, member', tail⟩ := mem_formsFrom member
  intro b inBlock
  obtain ⟨own, inBefore, low, high⟩ := exists_range_of_mem fits b inBlock
  have bounds := forms_continue whole member' own (by
    rw [← tail]
    exact List.mem_append_left _ inBefore)
  exact ⟨by omega, by omega⟩

end Stuck

theorem eq_nil_of_begins {first : UInt8} (unknown : formsFrom first.toNat = []) {longer rest : Bytes}
    (under : longer <+: first :: rest) (begins : Begins longer) : longer = [] := by
  cases longer with
  | nil => rfl
  | cons b longer =>
    obtain ⟨rfl, _⟩ := List.cons_prefix_cons.1 under
    obtain ⟨q, sequence, after, rfl⟩ := begins
    obtain ⟨form, member, _⟩ := isSequence_cons.1 sequence
    rw [unknown] at member
    cases member

/-- The bytes in three parts: a well-formed beginning, the block that is refused, and the rest. -/
structure IsRefused (bytes : Bytes) (m : Malformed) (good block rest : Bytes) : Prop where
  cut : bytes = good ++ block ++ rest
  position : m.position = good.length
  width : m.width = block.length
  first : block.head? = some m.first
  wellFormed : WellFormed good
  longest : ∀ longer, longer <+: bytes → WellFormed longer → longer.length ≤ good.length
  maximal : ∀ longer, longer <+: block ++ rest → Begins longer → longer.length ≤ block.length
  reason : (Begins block ∧ m.reason = if rest = [] then .unexpectedEnd else .invalidContinuation) ∨
    (¬ Begins block ∧ block.length = 1 ∧ m.reason = .invalidStart)
  continues : ∀ b ∈ block.tail, Continues b

theorem isRefused_of_read {t : Text} {m : Malformed} {bytes : Bytes}
    (place : m.position = (encode t).length)
    (refused : read m.first bytes = .malformed m.width m.reason) :
    ∃ block rest, IsRefused (encode t ++ m.first :: bytes) m (encode t) block rest := by
  have good : WellFormed (encode t) := wellFormed_iff.2 ⟨t, rfl⟩
  have longest : ∀ longer, longer <+: encode t ++ m.first :: bytes → WellFormed longer →
      longer.length ≤ (encode t).length := fun _ => length_le_of_wellFormed refused
  have ends := read_ends m.first bytes
  rw [refused] at ends
  rcases ends with ⟨unknown, width, why⟩ | ⟨form, block, rest, known, rfl, width, stuck⟩
  · refine ⟨[m.first], bytes, by simp, place, width, rfl, good, longest, ?_, .inr ⟨?_, rfl, why⟩,
      by simp⟩
    · intro longer under begins
      rw [eq_nil_of_begins unknown under begins]
      exact Nat.zero_le _
    · intro begins
      cases eq_nil_of_begins unknown (List.prefix_append [m.first] bytes) begins
  · obtain ⟨_, _, _, _, _, _, why⟩ := id stuck
    exact ⟨m.first :: block, rest, by simp, place, width, rfl, good, longest,
      fun _ => stuck.maximal known, .inl ⟨stuck.begins known, why⟩, stuck.continues known⟩

theorem decode_refuses {bytes : Bytes} (malformed : ¬ WellFormed bytes) :
    ∃ m good block rest, decode bytes = .error m ∧ IsRefused bytes m good block rest := by
  cases read : decode bytes with
  | ok t => exact absurd (wellFormed_iff.2 ⟨t, (decode_eq_ok_iff.1 read).symm⟩) malformed
  | error m =>
    obtain ⟨t, rest, rfl, place, refused⟩ := decodeFrom_eq_error read
    rw [Nat.zero_add] at place
    obtain ⟨block, rest', parts⟩ := isRefused_of_read place refused
    exact ⟨m, _, block, rest', rfl, parts⟩

end Utf8

/-- A template is read if and only if it is well-formed, as the text whose bytes it holds. Otherwise
the fault tells where the longest well-formed beginning ends, and which block follows. -/
theorem Template.read_strictly {s : Store} {p : Path} {bytes : Bytes} (opens : s.read p = .ok bytes) :
    (∀ t, Template.read s p = .ok t ↔ Utf8.encode t = bytes) ∧
    ((∃ t, Template.read s p = .ok t) ↔ Utf8.WellFormed bytes) ∧
    (¬ Utf8.WellFormed bytes → ∃ m good block rest,
      Template.read s p = .error (.template p (.undecodable m)) ∧
      Utf8.IsRefused bytes m good block rest) := by
  obtain ⟨_, place, located, file⟩ := Store.read_eq_ok opens
  have plain := Store.plain_of_locate located file (by simp [Node.kind])
  have texts : ∀ t, Template.read s p = .ok t ↔ Utf8.encode t = bytes := by
    intro t
    rw [Template.read_eq_ok_iff, opens, Except.ok.injEq]
    exact ⟨fun given => given.2.symm, fun same => ⟨plain, same.symm⟩⟩
  refine ⟨texts, ?_, ?_⟩
  · rw [Utf8.wellFormed_iff]
    exact exists_congr texts
  · intro malformed
    obtain ⟨m, good, block, rest, refused, parts⟩ := Utf8.decode_refuses malformed
    refine ⟨m, good, block, rest, ?_, parts⟩
    rw [Template.read, if_neg plain, opens]
    simp only [Template.decodeFor, refused]

/-- A sequence of four bytes that ends behind the third. -/
theorem Template.read_strictly_cut_short :
    let bytes : Bytes := [0x41, 0xf0, 0x90, 0x80]
    let s : Store := ⟨[], [([⟨"t", by decide⟩], .file bytes)]⟩
    let m : Utf8.Malformed := ⟨1, 3, 0xf0, .unexpectedEnd⟩
    s.read (.ofText "t") = .ok bytes ∧ ¬ Utf8.WellFormed bytes ∧
      Template.read s (.ofText "t") = .error (.template (.ofText "t") (.undecodable m)) ∧
      ∃ good block rest, Utf8.IsRefused bytes m good block rest := by
  intro bytes s m
  have opens : s.read (.ofText "t") = .ok bytes := by decide +kernel
  have fault : Template.read s (.ofText "t") =
      .error (.template (.ofText "t") (.undecodable m)) := by decide +kernel
  obtain ⟨_, accepted, refused⟩ := Template.read_strictly opens
  have malformed : ¬ Utf8.WellFormed bytes := by
    intro wellFormed
    obtain ⟨t, read⟩ := accepted.2 wellFormed
    rw [fault] at read
    cases read
  obtain ⟨m', good, block, rest, fault', parts⟩ := refused malformed
  rw [fault] at fault'
  cases fault'
  exact ⟨opens, malformed, fault, good, block, rest, parts⟩

end LicenseHeaders
