import LicenseHeaders.Proofs.Visit

/-!
What a run answers and what it reports. Each outcome that a walk answers has been reported when the
file was dealt with, in the same order, and nothing else has been; so the tally of a run is that of
its own reports.
-/
namespace LicenseHeaders.Insertion
open Traversal

variable {c : Config} {refusals : Refusals} {g g' : Progress}

theorem Replaced.silent {p : Path} {bytes : Bytes} {failure : Option FailedMove}
    (h : Replaced refusals p bytes g (.ok failure g')) : g'.journal.outcomes = g.journal.outcomes := by
  cases h with
  | refused | stuck | moved => simp [Journal.outcomes]

theorem settle_reports {p : Path} {rel : Text} {now : Option Outcome}
    (ran : settle c refusals p rel g = .ok now g') :
    g'.journal.outcomes = g.journal.outcomes ++ [now].filterMap id := by
  unfold settle at ran
  cases eligible : c.eligible? rel with
  | none =>
    rw [eligible] at ran
    cases ran
    simp
  | some header =>
  rw [eligible] at ran
  simp only [Job.bind_apply] at ran
  have ends := processed c refusals p rel header g
  generalize process c refusals p rel header g = result at ends ran
  cases ends with
  | failed => cases ran
  | kept | foreseen =>
    cases ran
    simp [Journal.outcomes]
  | updated _ _ _ _ done =>
    cases ran
    have silent := done.silent
    simp only [Journal.outcomes] at silent ⊢
    simp [silent]

variable {p : Path} {names : Location}

theorem visitEntry_reports {enter : Path → Text → Job (List (Option Outcome))} (entry : Entry)
    (entered : ∀ names g g' outcomes, enter (p.below names) (relative names) g = .ok outcomes g' →
      g'.journal.outcomes = g.journal.outcomes ++ outcomes.filterMap id)
    {outcomes : List (Option Outcome)}
    (ran : visitEntry c.excludes (settle c refusals) enter (p.below names) (relative names) entry g =
      .ok outcomes g') :
    g'.journal.outcomes = g.journal.outcomes ++ outcomes.filterMap id := by
  obtain ⟨name, kind⟩ := entry
  cases kind with
  | directory =>
    rw [visitEntry_directory] at ran
    split at ran
    · cases ran
      simp [Journal.outcomes]
    · exact entered _ _ _ _ ran
  | file =>
    obtain ⟨now, settled, rfl⟩ := visitEntry_file_eq_ok ran
    exact settle_reports settled
  | link =>
    rw [visitEntry_link] at ran
    split at ran
    · split at ran
      · rename_i now between settled
        cases ran
        exact settle_reports settled
      · cases ran
    · cases ran
      simp
    · cases ran
      simp
    · cases ran

theorem visitEntries_reports {enter : Path → Text → Job (List (Option Outcome))}
    (entries : List Entry)
    (entered : ∀ names g g' outcomes, enter (p.below names) (relative names) g = .ok outcomes g' →
      g'.journal.outcomes = g.journal.outcomes ++ outcomes.filterMap id)
    {outcomes : List (Option Outcome)}
    (ran : visitEntries c.excludes (settle c refusals) enter (p.below names) (relative names) entries
      g = .ok outcomes g') :
    g'.journal.outcomes = g.journal.outcomes ++ outcomes.filterMap id := by
  induction entries generalizing g outcomes with
  | nil =>
    cases ran
    simp
  | cons entry rest ih =>
    obtain ⟨now, between, later, first, second, rfl⟩ := visitEntries_cons_eq_ok ran
    rw [ih second, visitEntry_reports entry entered first, List.filterMap_append, List.append_assoc]

theorem visit_reports (depth : Nat) {outcomes : List (Option Outcome)}
    (ran : visit c.excludes (settle c refusals) depth (p.below names) (relative names) g =
      .ok outcomes g') :
    g'.journal.outcomes = g.journal.outcomes ++ outcomes.filterMap id := by
  induction depth generalizing names g g' outcomes with
  | zero => cases ran
  | succ depth ih =>
    rw [visit_apply] at ran
    cases listed : Job.list (p.below names) g with
    | error =>
      rw [listed] at ran
      cases ran
    | ok entries between =>
      rw [listed] at ran
      obtain ⟨place, _, _, _, rfl⟩ := Job.list_eq_ok listed
      rw [visitEntries_reports entries (fun names g g' outcomes ran => ih ran) ran]
      simp [Journal.outcomes]

theorem run_reports {tally : Tally} (ran : run c refusals g = .ok tally g') :
    ∃ outcomes, g'.journal.outcomes = g.journal.outcomes ++ outcomes ∧
      tally = .ofOutcomes outcomes := by
  rw [run_apply] at ran
  split at ran
  · rename_i outcomes between walked
    cases ran
    refine ⟨outcomes.filterMap id, ?_, rfl⟩
    rw [← visit_reports _ walked]
    simp [Journal.outcomes]
  · cases ran

end LicenseHeaders.Insertion
