import LicenseHeaders.Proofs.Listing
import LicenseHeaders.Proofs.Update

/-!
Stores that differ in files only, and directories that look alike. Without links, what is done under
a name in a directory depends on the entries of that directory alone. So two stores in which one
path leads to directories with the same entries answer alike, and change alike.
-/
namespace LicenseHeaders.Store

/-- No more than files have come and gone. -/
structure Kindred (s t : Store) : Prop where
  base : t.base = s.base
  entry : ∀ place, t.get? place = s.get? place ∨ s.Vacant place ∧ t.Vacant place

namespace Kindred

variable {s t : Store} {place : Location}

theorem refl (s : Store) : Kindred s s := ⟨rfl, fun _ => .inl rfl⟩

theorem vacant_before (h : Kindred s t) (vacant : t.Vacant place) : s.Vacant place := by
  rcases h.entry place with same | ⟨before, _⟩
  · rwa [Vacant, same] at vacant
  · exact before

theorem isDirectory_iff (h : Kindred s t) : t.IsDirectory place ↔ s.IsDirectory place := by
  rcases h.entry place with same | ⟨before, after⟩
  · rw [IsDirectory, same, IsDirectory]
  · exact iff_of_false after.not_isDirectory before.not_isDirectory

theorem noLinks (h : Kindred s t) (noLinks : ∀ place target, s.get? place ≠ some (.link target))
    (place : Location) (target : Text) : t.get? place ≠ some (.link target) := by
  rcases h.entry place with same | ⟨_, after⟩
  · rw [same]
    exact noLinks place target
  · exact after.not_link target

theorem reaches (h : Kindred s t) {p : Path} {spent : Nat} (reached : Reaches s p spent place) :
    Reaches t p spent place := by
  refine reached.same (fun other => ?_) h.base
  rcases h.entry other with same | ⟨before, _⟩
  · exact .inl same
  · exact .inr before.missing_or_opens

theorem changed (h : Kindred s t) {t' : Store} (base : t'.base = t.base) (before : t.Vacant place)
    (after : t'.Vacant place) (elsewhere : ∀ other, other ≠ place → t'.get? other = t.get? other) :
    Kindred s t' := by
  refine ⟨base.trans h.base, fun other => ?_⟩
  by_cases same : other = place
  · subst same
    exact .inr ⟨h.vacant_before before, after⟩
  · simpa only [Vacant, elsewhere other same] using h.entry other

theorem put (h : Kindred s t) (vacant : t.Vacant place) (contents : Bytes) :
    Kindred s (t.put place (.file contents)) := by
  have below := not_root vacant.not_isDirectory
  refine h.changed rfl vacant (.inr ⟨contents, ?_⟩) ?_
  · rw [get?_put _ _ _ _ below, if_pos rfl]
  · intro other away
    rw [get?_put _ _ _ _ below, if_neg away]

theorem erase (h : Kindred s t) (vacant : t.Vacant place) : Kindred s (t.erase place) := by
  have below := not_root vacant.not_isDirectory
  refine h.changed rfl vacant (.inl ?_) ?_
  · rw [get?_erase _ _ _ below, if_pos rfl]
  · intro other away
    rw [get?_erase _ _ _ below, if_neg away]

end Kindred

theorem Reaches.locate_iff {s : Store} {p : Path} {spent : Nat} {place : Location}
    (h : Reaches s p spent place) :
    s.locate p = if Fits p then .ok place else .error .nameTooLong := by
  by_cases fits : Fits p
  · rw [if_pos fits, h.locate fits]
  · rw [if_neg fits, locate_eq, if_neg fits]

theorem Reaches.directoryOf {s : Store} {dir : Path} {spent : Nat} {place : Location}
    (h : Reaches s dir spent place) (part : Text) :
    s.directoryOf (dir.child part) =
      if Fits (dir.child part) then .ok place else .error .nameTooLong := by
  by_cases fits : Fits (dir.child part)
  · rw [if_pos fits, directoryOf_child.2 ⟨fits, spent, h⟩]
  · have long : ¬ Utf8.size (dir.child part).toText < pathLimit := fits
    rw [if_neg fits]
    simp [Store.directoryOf, refuseLong, long, bind, Except.bind]

theorem Reaches.follow_into {s : Store} {dir : Path} {spent : Nat} {place : Location}
    (h : Reaches s dir spent place)
    (plain : ∀ name target, s.get? (place ++ [name]) ≠ some (.link target)) (creating : Bool)
    {part : Text} (into : Step.ofPart part = .into part) :
    s.follow creating (.ofPath (dir.child part)) =
      match Name.ofText? part with
      | none => .error .nameTooLong
      | some name =>
        if s.get? (place ++ [name]) = none ∧ creating = false then .error .notFound
        else .ok (place ++ [name]) := by
  cases named : Name.ofText? part with
  | none => rw [h.follow_child, into, travel_unnamed h.inside named]
  | some name =>
    obtain rfl := Name.text_of_ofText? named
    rw [h.follow_name]
    cases held : s.get? (place ++ [name]) with
    | none => cases creating <;> simp [held]
    | some node =>
      cases node with
      | file | directory => simp [held]
      | link target => exact absurd held (plain name target)

section Way

variable {s s' : Store} {links : Nat} {a b : Location} {steps : List Step}
variable (noLinks : ∀ place target, s.get? place ≠ some (.link target)) (noUp : .up ∉ steps)
include noLinks noUp

theorem begins_of_travel (h : s.travel false links a steps = .ok b) : a <+: b := by
  induction steps generalizing a with
  | nil =>
    rw [travel_nil] at h
    cases h
    exact List.prefix_refl _
  | cons step rest ih =>
    obtain ⟨notUp, restNoUp⟩ := not_or.1 (List.mem_cons.not.1 noUp)
    by_cases inside : s.IsDirectory a
    · cases step with
      | up => exact absurd rfl notUp
      | stay =>
        rw [travel_stay inside, if_neg (by simp)] at h
        exact ih restNoUp h
      | into part =>
        cases named : Name.ofText? part with
        | none =>
          rw [travel_unnamed inside named] at h
          cases h
        | some name =>
          obtain rfl := Name.text_of_ofText? named
          rw [travel_into inside] at h
          split at h
          · cases h
          · rename_i held
            exact absurd held (noLinks _ _)
          · exact (List.prefix_append a [name]).trans (ih restNoUp h)
    · rw [travel_outside inside] at h
      cases h

theorem travel_congr (agree : ∀ place, (∀ b, s.travel false links a steps = .ok b → place <+: b) →
      s'.get? place = s.get? place) :
    s'.travel false links a steps = s.travel false links a steps := by
  induction steps generalizing a with
  | nil => rw [travel_nil, travel_nil]
  | cons step rest ih =>
    have here := agree a fun b way => begins_of_travel noLinks noUp way
    obtain ⟨notUp, restNoUp⟩ := not_or.1 (List.mem_cons.not.1 noUp)
    by_cases inside : s.IsDirectory a
    · have inside' : s'.IsDirectory a := here.trans inside
      cases step with
      | up => exact absurd rfl notUp
      | stay =>
        rw [travel_stay inside, if_neg (by simp)] at agree ⊢
        rw [travel_stay inside', if_neg (by simp)]
        exact ih restNoUp agree
      | into part =>
        cases named : Name.ofText? part with
        | none => rw [travel_unnamed inside named, travel_unnamed inside' named]
        | some name =>
          obtain rfl := Name.text_of_ofText? named
          rw [travel_into inside] at agree ⊢
          rw [travel_into inside']
          cases held : s.get? (a ++ [name]) with
          | none =>
            rw [held] at agree
            rw [agree _ (by simp), held]
          | some node =>
          rw [held] at agree
          cases node with
          | link target => exact absurd held (noLinks _ target)
          | file | directory =>
            have next := agree (a ++ [name]) fun b way => begins_of_travel noLinks restNoUp way
            rw [next, held]
            exact ih restNoUp agree
    · have outside : ¬ s'.IsDirectory a := by rwa [IsDirectory, here]
      rw [travel_outside inside, travel_outside outside]

end Way

theorem locate_congr {s s' : Store} {p : Path}
    (noLinks : ∀ place target, s.get? place ≠ some (.link target)) (noUp : ['.', '.'] ∉ p.parts)
    (base : s'.base = s.base)
    (agree : ∀ place, (∀ b, s.locate p = .ok b → place <+: b) → s'.get? place = s.get? place) :
    s'.locate p = s.locate p := by
  rw [locate_eq] at agree ⊢
  rw [locate_eq]
  by_cases fits : Fits p
  · rw [if_pos fits] at agree ⊢
    rw [if_pos fits]
    have steps : .up ∉ (Route.ofPath p).steps := by
      intro member
      obtain ⟨part, own, up⟩ := List.mem_map.1 member
      unfold Step.ofPart at up
      split at up
      · cases up
      · split at up
        · rename_i dots
          exact noUp (dots ▸ own)
        · cases up
    unfold Store.follow at agree ⊢
    rw [base]
    exact travel_congr noLinks steps agree
  · rw [if_neg fits, if_neg fits]

/-- One path leads to directories without links in both stores, and they have the same entries. -/
structure Twins (s s' : Store) (dir : Path) (place : Location) : Prop where
  reaches : ∃ spent, Reaches s dir spent place
  reaches' : ∃ spent, Reaches s' dir spent place
  plain : ∀ name target, s.get? (place ++ [name]) ≠ some (.link target)
  same : ∀ name, s'.get? (place ++ [name]) = s.get? (place ++ [name])

namespace Twins

variable {s s' : Store} {dir : Path} {place : Location} (h : Twins s s' dir place)
include h

theorem locate : s'.locate dir = s.locate dir := by
  obtain ⟨_, reaches⟩ := h.reaches
  obtain ⟨_, reaches'⟩ := h.reaches'
  rw [reaches.locate_iff, reaches'.locate_iff]

theorem list : s'.list dir = s.list dir := by
  obtain ⟨_, reaches⟩ := h.reaches
  obtain ⟨_, reaches'⟩ := h.reaches'
  unfold Store.list
  rw [h.locate, reaches.locate_iff]
  by_cases fits : Fits dir
  · have inside : s.get? place = some .directory := reaches.inside
    have inside' : s'.get? place = some .directory := reaches'.inside
    simp only [if_pos fits, bind, Except.bind, inside, inside', entriesIn_congr h.same]
  · rw [if_neg fits]
    rfl

section Child

variable {part : Text} (into : Step.ofPart part = .into part)
include into

theorem follow (creating : Bool) :
    s'.follow creating (.ofPath (dir.child part)) = s.follow creating (.ofPath (dir.child part)) := by
  obtain ⟨_, reaches⟩ := h.reaches
  obtain ⟨_, reaches'⟩ := h.reaches'
  have plain' : ∀ name target, s'.get? (place ++ [name]) ≠ some (.link target) := by
    intro name target
    rw [h.same]
    exact h.plain name target
  rw [reaches.follow_into h.plain creating into, reaches'.follow_into plain' creating into]
  simp only [h.same]

theorem follow_eq_ok {creating : Bool} {other : Location}
    (found : s.follow creating (.ofPath (dir.child part)) = .ok other) :
    ∃ name : Name, name.text = part ∧ other = place ++ [name] := by
  obtain ⟨_, reaches⟩ := h.reaches
  rw [reaches.follow_into h.plain creating into] at found
  cases named : Name.ofText? part with
  | none =>
    rw [named] at found
    cases found
  | some name =>
    rw [named] at found
    dsimp only at found
    split at found
    · cases found
    · cases found
      exact ⟨name, Name.text_of_ofText? named, rfl⟩

theorem read : s'.read (dir.child part) = s.read (dir.child part) := by
  unfold Store.read
  rw [locate_eq, locate_eq, h.follow into]
  by_cases fits : Fits (dir.child part)
  · rw [if_pos fits]
    cases found : s.follow false (.ofPath (dir.child part)) with
    | error cause => rfl
    | ok other =>
      obtain ⟨name, _, rfl⟩ := h.follow_eq_ok into found
      simp only [bind, Except.bind, h.same]
  · rw [if_neg fits]
    rfl

theorem write (contents : Bytes) :
    (∃ cause, s.write (dir.child part) contents = .error cause ∧
      s'.write (dir.child part) contents = .error cause) ∨
    ∃ name : Name, name.text = part ∧ s.Vacant (place ++ [name]) ∧
      s.write (dir.child part) contents =
        .ok (place ++ [name], s.put (place ++ [name]) (.file contents)) ∧
      s'.write (dir.child part) contents =
        .ok (place ++ [name], s'.put (place ++ [name]) (.file contents)) := by
  unfold Store.write
  rw [locateForWriting_eq, locateForWriting_eq, h.follow into]
  by_cases fits : Fits (dir.child part)
  · rw [if_pos fits]
    cases found : s.follow true (.ofPath (dir.child part)) with
    | error cause => exact .inl ⟨cause, rfl, rfl⟩
    | ok other =>
      obtain ⟨name, text, rfl⟩ := h.follow_eq_ok into found
      simp only [bind, Except.bind, h.same, Vacant]
      cases held : s.get? (place ++ [name]) with
      | none => exact .inr ⟨name, text, .inl held, rfl, rfl⟩
      | some node =>
        cases node with
        | file old => exact .inr ⟨name, text, .inr ⟨old, held⟩, rfl, rfl⟩
        | directory => exact .inl ⟨_, rfl, rfl⟩
        | link target => exact absurd held (h.plain name target)
  · rw [if_neg fits]
    exact .inl ⟨_, rfl, rfl⟩

end Child

theorem move (source target : Name) :
    (∃ cause, s.move (dir.child source.text) (dir.child target.text) = .error cause ∧
      s'.move (dir.child source.text) (dir.child target.text) = .error cause) ∨
    ∃ contents, s.get? (place ++ [source]) = some (.file contents) ∧
      s.Vacant (place ++ [target]) ∧
      s.move (dir.child source.text) (dir.child target.text) =
        .ok ((place ++ [source], place ++ [target]),
          (s.erase (place ++ [source])).put (place ++ [target]) (.file contents)) ∧
      s'.move (dir.child source.text) (dir.child target.text) =
        .ok ((place ++ [source], place ++ [target]),
          (s'.erase (place ++ [source])).put (place ++ [target]) (.file contents)) := by
  obtain ⟨_, reaches⟩ := h.reaches
  obtain ⟨_, reaches'⟩ := h.reaches'
  unfold Store.move
  rw [reaches.directoryOf, reaches.directoryOf, reaches'.directoryOf, reaches'.directoryOf]
  by_cases fits : Fits (dir.child source.text)
  · by_cases fits' : Fits (dir.child target.text)
    · simp only [if_pos fits, if_pos fits', bind, Except.bind, lastName_child, Step.ofPart_name,
        entryAt, Name.ofText?_text, h.same, Vacant]
      cases held : s.get? (place ++ [source]) with
      | none => exact .inl ⟨_, rfl, rfl⟩
      | some node =>
      cases node with
      | directory => exact .inl ⟨_, rfl, rfl⟩
      | link text => exact absurd held (h.plain source text)
      | file contents =>
      cases held' : s.get? (place ++ [target]) with
      | none => exact .inr ⟨contents, rfl, .inl rfl, rfl, rfl⟩
      | some node =>
        cases node with
        | directory => exact .inl ⟨_, rfl, rfl⟩
        | link text => exact absurd held' (h.plain target text)
        | file old => exact .inr ⟨contents, rfl, .inr ⟨old, rfl⟩, rfl, rfl⟩
    · simp only [if_pos fits, if_neg fits']
      exact .inl ⟨_, rfl, rfl⟩
  · simp only [if_neg fits]
    exact .inl ⟨_, rfl, rfl⟩

end Twins

end LicenseHeaders.Store
