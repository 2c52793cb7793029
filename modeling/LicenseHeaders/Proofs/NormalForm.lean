import LicenseHeaders.Config
import LicenseHeaders.Proofs.CommaLists

/-!
The normal form of beginnings. `./` in front and slashes at the end are a matter of spelling: however
many of them are written, the normal form is the same, and a text is a normal form if and only if it
has none of them and is not a dot alone. So two configurations that differ in that spelling match the
same directories and files.
-/
namespace LicenseHeaders

namespace Beginning

/-- An entry with `./` written in front of it and slashes behind, each any number of times. -/
def spelled (heres : Nat) (entry : Text) (slashes : Nat) : Text :=
  (List.replicate heres ['.', '/']).flatten ++ entry ++ List.replicate slashes '/'

def Alike (a b : Text) : Prop :=
  ∃ entry heres slashes heres' slashes',
    a = spelled heres entry slashes ∧ b = spelled heres' entry slashes'

theorem dropHere_heres (heres : Nat) (t : Text) :
    dropHere ((List.replicate heres ['.', '/']).flatten ++ t) = dropHere t := by
  induction heres with
  | zero => rfl
  | succ heres ih =>
    rw [List.replicate_succ, List.flatten_cons, List.append_assoc]
    exact ih

theorem not_begins_dropHere (t : Text) : ¬ ['.', '/'] <+: dropHere t := by
  induction t using dropHere.induct with
  | case1 rest ih => exact ih
  | case2 t other =>
    rw [dropHere.eq_2 t other]
    intro begins
    obtain ⟨rest, rfl⟩ := begins
    exact other rest rfl

theorem dropHere_eq_self {t : Text} (bare : ¬ ['.', '/'] <+: t) : dropHere t = t := by
  apply dropHere.eq_2
  intro rest whole
  exact bare ⟨rest, whole.symm⟩

theorem dropHere_replicate (slashes : Nat) :
    dropHere (List.replicate slashes '/') = List.replicate slashes '/' := by
  apply dropHere_eq_self
  intro begins
  have dot : '.' ∈ List.replicate slashes '/' := begins.mem (by simp)
  cases List.eq_of_mem_replicate dot

theorem dropHere_slashes (t : Text) (slashes : Nat) :
    dropHere (t ++ List.replicate slashes '/') = dropHere t ++ List.replicate slashes '/' ∨
      dropHere t = ['.'] ∧ ∃ fewer, dropHere (t ++ List.replicate slashes '/') =
        List.replicate fewer '/' := by
  induction t using dropHere.induct with
  | case1 rest ih => exact ih
  | case2 t other =>
    have bare : dropHere t = t := dropHere.eq_2 t other
    rw [bare]
    by_cases begins : ['.', '/'] <+: t ++ List.replicate slashes '/'
    · obtain ⟨rest, whole⟩ := begins
      match t, slashes with
      | [], 0 => cases whole
      | [], _ + 1 =>
        rw [List.nil_append, List.replicate_succ] at whole
        cases whole
      | [c], 0 => simp at whole
      | [c], fewer + 1 =>
        rw [List.replicate_succ] at whole
        cases whole
        exact .inr ⟨rfl, fewer, dropHere_replicate fewer⟩
      | c :: d :: more, _ =>
        cases whole
        exact absurd rfl (other more)
    · exact .inl (dropHere_eq_self begins)

theorem dropEndWhile_slashes (t : Text) (slashes : Nat) :
    Text.dropEndWhile (· = '/') (t ++ List.replicate slashes '/') =
      Text.dropEndWhile (· = '/') t :=
  Text.dropEndWhile_append t fun c member => by simp [List.eq_of_mem_replicate member]

theorem normal_heres (heres : Nat) (t : Text) :
    normal ((List.replicate heres ['.', '/']).flatten ++ t) = normal t := by
  unfold normal
  rw [dropHere_heres]

theorem normal_slashes (t : Text) (slashes : Nat) :
    normal (t ++ List.replicate slashes '/') = normal t := by
  unfold normal
  rcases dropHere_slashes t slashes with same | ⟨dot, fewer, left⟩
  · rw [same, dropEndWhile_slashes]
  · have none := dropEndWhile_slashes [] fewer
    rw [List.nil_append] at none
    rw [left, none, dot]
    rfl

theorem normal_spelled (heres : Nat) (entry : Text) (slashes : Nat) :
    normal (spelled heres entry slashes) = normal entry := by
  rw [spelled, List.append_assoc, normal_heres, normal_slashes]

theorem Alike.normal_eq {a b : Text} (h : Alike a b) : normal a = normal b := by
  obtain ⟨entry, heres, slashes, heres', slashes', rfl, rfl⟩ := h
  rw [normal_spelled, normal_spelled]

theorem isNormal_normal (entry : Text) : IsNormal (normal entry) := by
  unfold normal
  dsimp only
  split
  · simp [IsNormal]
  · rename_i other
    refine ⟨?_, ?_, other⟩
    · intro begins
      exact not_begins_dropHere entry (begins.trans (List.rdropWhile_prefix _ _))
    · intro last
      have stays := Text.getLast?_dropEndWhile last
      simp at stays

theorem IsNormal.normal_eq {t : Text} (h : IsNormal t) : normal t = t := by
  obtain ⟨bare, open_, other⟩ := h
  have kept : Text.dropEndWhile (· = '/') t = t := by
    apply Text.dropEndWhile_eq_self
    intro c last
    simp only [decide_eq_false_iff_not]
    rintro rfl
    exact open_ last
  unfold normal
  rw [dropHere_eq_self bare, kept]
  exact if_neg other

theorem normal_normal (entry : Text) : normal (normal entry) = normal entry :=
  (isNormal_normal entry).normal_eq

theorem exists_normal_eq_iff {t : Text} : (∃ entry, normal entry = t) ↔ IsNormal t := by
  constructor
  · rintro ⟨entry, rfl⟩
    exact isNormal_normal entry
  · intro h
    exact ⟨t, h.normal_eq⟩

theorem map_normal_of_alike {entries others : List Text} (alike : List.Forall₂ Alike entries others) :
    others.map normal = entries.map normal := by
  induction alike with
  | nil => rfl
  | cons first _ ih => rw [List.map_cons, List.map_cons, ih, first.normal_eq]

theorem map_normal_map_normal (entries : List Text) :
    (entries.map normal).map normal = entries.map normal := by
  simp [normal_normal]

end Beginning

theorem Config.ofDraft_of_alike {d : Draft} {excluded exempt : List Text}
    (alike : List.Forall₂ Beginning.Alike d.excluded excluded)
    (alike' : List.Forall₂ Beginning.Alike d.exempt exempt) :
    ofDraft { d with excluded, exempt } = ofDraft d := by
  simp only [ofDraft, Beginning.map_normal_of_alike alike, Beginning.map_normal_of_alike alike']

theorem Config.ofDraft_of_normal (d : Draft) :
    ofDraft { d with excluded := (ofDraft d).excluded, exempt := (ofDraft d).exempt } = ofDraft d := by
  simp only [ofDraft, Beginning.map_normal_map_normal]

namespace Beginning

/-- Spelling does not change the normal form, the normal form of a normal form is itself, and the
normal forms are known. So spelling does not change what is excluded or exempt, and a configuration
that is built again from its own beginnings is the same. -/
theorem normal_is_canonical :
    (∀ heres entry slashes, normal (spelled heres entry slashes) = normal entry) ∧
    (∀ entry, normal (normal entry) = normal entry) ∧
    (∀ t, (∃ entry, normal entry = t) ↔ IsNormal t) ∧
    (∀ (d : Draft) (excluded exempt : List Text),
      List.Forall₂ Alike d.excluded excluded → List.Forall₂ Alike d.exempt exempt →
      let c := Config.ofDraft d
      let c' := Config.ofDraft { d with excluded, exempt }
      (∀ directory, c'.excludes directory = c.excludes directory) ∧
        ∀ directory rel, c'.exempts directory rel = c.exempts directory rel) ∧
    ∀ d : Draft, Config.ofDraft
      { d with excluded := (Config.ofDraft d).excluded, exempt := (Config.ofDraft d).exempt } =
        Config.ofDraft d := by
  refine ⟨normal_spelled, normal_normal, fun t => exists_normal_eq_iff, ?_, Config.ofDraft_of_normal⟩
  intro d excluded exempt alike alike' c c'
  have same : c' = c := Config.ofDraft_of_alike alike alike'
  rw [same]
  exact ⟨fun directory => rfl, fun directory rel => rfl⟩

/-- A dot, spelled with slashes, begins with `./` itself. -/
theorem normal_is_canonical_dots :
    let d : Draft := { excluded := ["out", "."], exempt := ["a/."] }
    let d' : Draft := { excluded := ["././out//", ".//"], exempt := ["./a/./"] }
    List.Forall₂ Alike d.excluded d'.excluded ∧ List.Forall₂ Alike d.exempt d'.exempt ∧
      (∀ directory, (Config.ofDraft d').excludes directory = (Config.ofDraft d).excludes directory) ∧
      ∀ directory rel,
        (Config.ofDraft d').exempts directory rel = (Config.ofDraft d).exempts directory rel := by
  intro d d'
  have excluded : List.Forall₂ Alike d.excluded d'.excluded :=
    .cons ⟨"out", 0, 0, 2, 2, rfl, rfl⟩ (.cons ⟨".", 0, 0, 0, 2, rfl, rfl⟩ .nil)
  have exempt : List.Forall₂ Alike d.exempt d'.exempt := .cons ⟨"a/.", 0, 0, 1, 1, rfl, rfl⟩ .nil
  exact ⟨excluded, exempt, normal_is_canonical.2.2.2.1 d _ _ excluded exempt⟩

end Beginning

end LicenseHeaders
