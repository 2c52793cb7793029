import LicenseHeaders.Proofs.Entry
import LicenseHeaders.Proofs.Replacement

/-!
The replacement of one file where no link has the temporary name. Then the temporary file lies in
the same directory under that name itself, the move cannot fail by itself, and no more than two
entries change: the file's own and the temporary one.
-/
namespace LicenseHeaders

/-- The entry in the same directory that has the temporary name. -/
def Beside (place other : Location) : Prop :=
  ∃ directory, ∃ name longer : Name, longer.text = name.text ++ Insertion.temporaryEnding ∧
    place = directory ++ [name] ∧ other = directory ++ [longer]

theorem Beside.concat {directory other : Location} {name : Name}
    (h : Beside (directory ++ [name]) other) :
    ∃ longer : Name, longer.text = name.text ++ Insertion.temporaryEnding ∧
      other = directory ++ [longer] := by
  obtain ⟨directory', name', longer, text, eq, rfl⟩ := h
  obtain ⟨rfl, last⟩ := List.append_inj' eq rfl
  cases last
  exact ⟨longer, text, rfl⟩

theorem Beside.unique {place a b : Location} (first : Beside place a) (second : Beside place b) :
    a = b := by
  obtain ⟨directory, name, longer, text, rfl, rfl⟩ := first
  obtain ⟨longer', text', rfl⟩ := second.concat
  rw [Name.text_injective (text.trans text'.symm)]

theorem Beside.injective {a b other : Location} (first : Beside a other) (second : Beside b other) :
    a = b := by
  obtain ⟨directory, name, longer, text, rfl, rfl⟩ := first
  obtain ⟨directory', name', longer', text', rfl, eq⟩ := second
  obtain ⟨rfl, last⟩ := List.append_inj' eq rfl
  cases last
  have same := List.append_cancel_right (text.symm.trans text')
  rw [Name.text_injective same]

theorem Beside.ne {place other : Location} (h : Beside place other) : place ≠ other := by
  obtain ⟨directory, name, longer, text, rfl, rfl⟩ := h
  intro eq
  have same := congrArg Name.text (List.singleton_inj.1 (List.append_cancel_left eq))
  have longer := congrArg List.length (same.trans text)
  simp [Insertion.temporaryEnding] at longer

theorem Step.ofPart_temporary (name : Name) :
    Step.ofPart (name.text ++ Insertion.temporaryEnding) =
      .into (name.text ++ Insertion.temporaryEnding) := by
  have long : 4 < (name.text ++ Insertion.temporaryEnding).length := by
    have some := List.length_pos_iff.2 name.isName.1
    have ending : Insertion.temporaryEnding.length = 4 := rfl
    rw [List.length_append]
    omega
  unfold Step.ofPart
  rw [if_neg, if_neg]
  · intro same
    rw [same] at long
    simp at long
  · intro given
    rcases given with same | same
    · rw [same] at long
      simp at long
    · rw [same] at long
      simp at long

namespace Store

variable {s s' : Store} {dir : Path} {spent : Nat} {place other : Location} {name : Name}
variable {bytes : Bytes}

theorem Reaches.write_beside (reaches : Reaches s dir spent place)
    (plain : ∀ beside target, Beside (place ++ [name]) beside → s.get? beside ≠ some (.link target))
    (wrote : s.write (dir.child (name.text ++ Insertion.temporaryEnding)) bytes = .ok (other, s')) :
    ∃ longer : Name, longer.text = name.text ++ Insertion.temporaryEnding ∧
      Fits (dir.child longer.text) ∧ other = place ++ [longer] ∧ s.Vacant other ∧
      s' = s.put other (.file bytes) := by
  obtain ⟨fits, found, vacant, put⟩ := write_child_eq_ok wrote
  cases named : Name.ofText? (name.text ++ Insertion.temporaryEnding) with
  | none =>
    rw [reaches.follow_child, Step.ofPart_temporary, travel_unnamed reaches.inside named] at found
    cases found
  | some longer =>
    have text := Name.text_of_ofText? named
    have beside : Beside (place ++ [name]) (place ++ [longer]) := ⟨_, _, _, text, rfl, rfl⟩
    rw [← text] at found fits
    rw [reaches.follow_name] at found
    refine ⟨longer, text, fits, ?_, vacant, put⟩
    cases held : s.get? (place ++ [longer]) with
    | none =>
      rw [held] at found
      cases found
      rfl
    | some node =>
      rw [held] at found
      cases node with
      | file | directory =>
        cases found
        rfl
      | link target => exact absurd held (plain _ target beside)

theorem Reaches.move_beside (reaches : Reaches s dir spent place) {longer : Name}
    (text : longer.text = name.text ++ Insertion.temporaryEnding)
    (fits : Fits (dir.child longer.text)) (fits' : Fits (dir.child name.text))
    (vacant : s.Vacant (place ++ [longer])) (free : ¬ s.IsDirectory (place ++ [name])) :
    (s.put (place ++ [longer]) (.file bytes)).move (dir.child longer.text) (dir.child name.text) =
      .ok ((place ++ [longer], place ++ [name]),
        ((s.put (place ++ [longer]) (.file bytes)).erase (place ++ [longer])).put (place ++ [name])
          (.file bytes)) := by
  have apart := Beside.ne ⟨place, name, longer, text, rfl, rfl⟩
  have below := not_root vacant.not_isDirectory
  have reached := reaches.put below vacant.missing_or_opens (.file bytes)
  refine reached.move fits fits' ?_ (by simp [Node.kind]) ?_
  · rw [get?_put _ _ _ _ below, if_pos rfl]
  · rw [IsDirectory, get?_put _ _ _ _ below, if_neg apart]
    exact free

end Store

namespace Insertion
open Store

variable {refusals : Refusals} {dir : Path} {spent : Nat} {place : Location} {name : Name}
variable {bytes : Bytes} {g g' : Progress} {failure : Option FailedMove}

theorem Replaced.entries
    (h : Replaced refusals (dir.child name.text) bytes g (.ok failure g'))
    (reaches : Reaches g.store dir spent place) (fits : Fits (dir.child name.text))
    (free : ¬ g.store.IsDirectory (place ++ [name]))
    (plain : ∀ beside target, Beside (place ++ [name]) beside →
      g.store.get? beside ≠ some (.link target)) :
    ∃ longer : Name, longer.text = name.text ++ temporaryEnding ∧
      g.store.Vacant (place ++ [longer]) ∧ g'.store.base = g.store.base ∧
      g'.journal.outcomes = g.journal.outcomes ∧
      failure = (refusals (dir.child name.text).toText).map
        (⟨dir.child longer.text, dir.child name.text, ·.error⟩) ∧
      match refusals (dir.child name.text).toText with
      | some _ => ∀ other, g'.store.get? other =
        if other = place ++ [longer] then some (.file bytes) else g.store.get? other
      | none => ∀ other, g'.store.get? other =
        if other = place ++ [name] then some (.file bytes)
        else if other = place ++ [longer] then none else g.store.get? other := by
  cases h with
  | @refused temporary last written refusal beside wrote refuse =>
    rw [Path.beside?_child] at beside
    cases beside
    obtain ⟨longer, text, _, rfl, vacant, rfl⟩ := reaches.write_beside plain wrote
    refine ⟨longer, text, vacant, rfl, by simp [Journal.outcomes], ?_⟩
    rw [refuse, text]
    exact ⟨rfl, fun other => get?_put _ _ _ _ (by simp)⟩
  | @stuck temporary last written cause beside wrote allow move =>
    rw [Path.beside?_child] at beside
    cases beside
    obtain ⟨longer, text, fits', rfl, vacant, rfl⟩ := reaches.write_beside plain wrote
    rw [← text, reaches.move_beside text fits' fits vacant free] at move
    cases move
  | @moved temporary last old new written final beside wrote allow move =>
    rw [Path.beside?_child] at beside
    cases beside
    obtain ⟨longer, text, fits', rfl, vacant, rfl⟩ := reaches.write_beside plain wrote
    rw [← text, reaches.move_beside text fits' fits vacant free] at move
    cases move
    refine ⟨longer, text, vacant, rfl, by simp [Journal.outcomes], ?_⟩
    rw [allow]
    refine ⟨rfl, fun other => ?_⟩
    rw [get?_put _ _ _ _ (by simp), get?_erase _ _ _ (by simp), get?_put _ _ _ _ (by simp)]
    by_cases own : other = place ++ [name]
    · rw [if_pos own, if_pos own]
    · rw [if_neg own, if_neg own]
      by_cases temporary : other = place ++ [longer]
      · rw [if_pos temporary, if_pos temporary]
      · rw [if_neg temporary, if_neg temporary, if_neg temporary]

end Insertion

end LicenseHeaders
