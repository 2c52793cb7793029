import LicenseHeaders.Proofs.Loading
import LicenseHeaders.Proofs.WalkAsBatch

/-!
What a run leaves alone. Under a derived registry neither the temporary ending nor the lack of an
extension has a header, so no candidate is the temporary file of another. Whether the run returns or
not, it touches no other files than those it reports as updated and their temporary files.
-/
namespace LicenseHeaders

theorem Config.registry_of_draft {d : Draft} (derived : d.registry = none) {ext : Text}
    (foreign : ∀ l : Language, ext ∉ l.extensions) :
    (Config.ofDraft d).registry.get? ext = none := by
  rw [registry_of_none derived, Option.eq_none_iff_forall_ne_some]
  intro header held
  obtain ⟨l, _, own, _⟩ := Registry.get?_derive_eq_some_iff.1 held
  exact foreign l own

namespace Insertion
open Store

theorem Underway.frame {s : Store} {c : Config} {refusals : Refusals} {seen : List Candidate}
    {g : Progress} (h : Underway s c refusals seen g) {place : Location}
    (away : ∀ x ∈ seen, (x.outcome c refusals).status = .updated →
      place ≠ x.place ∧ ¬ Beside x.place place) : g.store.get? place = s.get? place := by
  apply h.settled.untouched place
  intro x member updated
  apply away x member
  rw [Candidate.outcome_updated refusals updated]

/-- Every file keeps its contents, except those that are reported as updated and those that have the
temporary name of one. -/
def KeepsOthers (s : Store) (c : Config) (refusals : Refusals) : Prop :=
  let g := Job.progressOf (run c refusals ⟨s, []⟩)
  ∃ seen : List Candidate, (∀ x ∈ seen, IsCandidate s c x) ∧
    g.journal.outcomes = seen.map (·.outcome c refusals) ∧
    ∀ place contents, s.get? place = some (.file contents) →
      (∀ x ∈ seen, (x.outcome c refusals).status = .updated →
        place ≠ x.place ∧ ¬ Beside x.place place) →
      g.store.get? place = some (.file contents)

/-- With derived headers a run changes no file but those it reports as updated and those that have the
temporary name of one, however it ends. -/
theorem run_frame (s : Store) (d : Draft) (refusals : Refusals) (derived : d.registry = none)
    (noLinks : ∀ place target, s.get? place ≠ some (.link target)) :
    KeepsOthers s (.ofDraft d) refusals := by
  have free : (Config.ofDraft d).registry.get? temporaryEnding = none :=
    Config.registry_of_draft derived (by intro l; cases l <;> decide)
  have bare : (Config.ofDraft d).registry.get? [] = none :=
    Config.registry_of_draft derived (by intro l; cases l <;> decide)
  have ends := run_underway refusals noLinks
    (spared_of_dots free fun x y candidate _ _ _ _ _ => candidate.letter bare)
  have dealt : ∃ seen, Underway s (.ofDraft d) refusals seen
      (Job.progressOf (run (.ofDraft d) refusals ⟨s, []⟩)) := by
    generalize run (.ofDraft d) refusals ⟨s, []⟩ = result at ends ⊢
    cases result with
    | ok tally g =>
      obtain ⟨batch, _, _, underway⟩ := ends
      exact ⟨batch, underway⟩
    | error fault g =>
      obtain ⟨_, seen, _, _, underway⟩ := ends
      exact ⟨seen, underway⟩
  obtain ⟨seen, underway⟩ := dealt
  refine ⟨seen, underway.members, underway.reported, ?_⟩
  intro place contents file away
  rw [underway.frame away, file]

def plainDraft : Draft := { license := "L" }

theorem run_frame_of_plainDraft :
    KeepsOthers (twoFiles ⟨"a.c", by decide⟩ ⟨"b.txt", by decide⟩ [97] [98]) (.ofDraft plainDraft)
      (fun _ => none) :=
  run_frame (twoFiles ⟨"a.c", by decide⟩ ⟨"b.txt", by decide⟩ [97] [98]) plainDraft
    (fun _ => none) rfl (noLinks_of_nodes (by decide))

/-- A file that has the temporary name of an updated one is no candidate, and is lost. -/
theorem run_loses_temporary_name :
    let s := twoFiles ⟨"a.c", by decide⟩ ⟨"a.c.new", by decide⟩ [97] [98]
    let g := Job.progressOf (run (.ofDraft plainDraft) (fun _ => none) ⟨s, []⟩)
    s.get? [⟨"a.c.new", by decide⟩] = some (.file [98]) ∧
      g.journal.outcomes = [⟨"a.c", .updated, none⟩] ∧
      g.store.get? [⟨"a.c.new", by decide⟩] = none := by
  decide +kernel

end Insertion

end LicenseHeaders
