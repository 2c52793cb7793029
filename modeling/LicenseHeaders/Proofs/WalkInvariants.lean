import LicenseHeaders.Proofs.Update
import LicenseHeaders.Proofs.Visit

/-!
What a walk keeps. Whatever every act on a file keeps, and every word about a directory, the whole
walk keeps, however it ends. So a dry run changes nothing, whatever the store holds.
-/
namespace LicenseHeaders

namespace Traversal
open Job

variable {α : Type} {prune : Text → Bool} {act : Path → Text → Job α} {p : Path} {names : Location}
variable {I : Progress → Prop}
variable (told : ∀ event g, (∀ outcome, event ≠ .reported outcome) → I g →
  I { g with journal := g.journal ++ [event] })
variable (acted : ∀ names g, I g → I (progressOf (act (p.below names) (relative names) g)))
include told acted

theorem visitEntry_keeps {enter : Path → Text → Job (List α)}
    (entered : ∀ names g, I g → I (progressOf (enter (p.below names) (relative names) g)))
    (entry : Entry) {g : Progress} (h : I g) :
    I (progressOf (visitEntry prune act enter (p.below names) (relative names) entry g)) := by
  obtain ⟨name, kind⟩ := entry
  cases kind with
  | directory =>
    rw [visitEntry_directory]
    split
    · exact told _ g (by simp) h
    · exact entered _ g h
  | file =>
    rw [visitEntry_file]
    have kept := acted (names ++ [name]) g h
    cases result : act (p.below (names ++ [name])) (relative (names ++ [name])) g <;>
      rwa [result] at kept
  | link =>
    rw [visitEntry_link]
    have kept := acted (names ++ [name]) g h
    split
    · cases result : act (p.below (names ++ [name])) (relative (names ++ [name])) g <;>
        rwa [result] at kept
    · exact h
    · exact h
    · exact h

theorem visitEntries_keeps {enter : Path → Text → Job (List α)}
    (entered : ∀ names g, I g → I (progressOf (enter (p.below names) (relative names) g)))
    (entries : List Entry) {g : Progress} (h : I g) :
    I (progressOf (visitEntries prune act enter (p.below names) (relative names) entries g)) := by
  induction entries generalizing g with
  | nil => exact h
  | cons entry rest ih =>
    have first : I (progressOf
        (visitEntry prune act enter (p.below names) (relative names) entry g)) :=
      visitEntry_keeps told acted entered entry h
    rw [visitEntries_cons_apply]
    cases now : visitEntry prune act enter (p.below names) (relative names) entry g with
    | error fault g' => rwa [now] at first
    | ok outcomes g' =>
      have between : I g' := by rwa [now] at first
      have second := ih between
      dsimp only
      cases later : visitEntries prune act enter (p.below names) (relative names) rest g' <;>
        rwa [later] at second

theorem visit_keeps (depth : Nat) {g : Progress} (h : I g) :
    I (progressOf (visit prune act depth (p.below names) (relative names) g)) := by
  induction depth generalizing names g with
  | zero => exact h
  | succ depth ih =>
    rw [visit_apply]
    cases listed : Job.list (p.below names) g with
    | error fault g' =>
      obtain rfl := Job.list_eq_error listed
      exact h
    | ok entries g' =>
      obtain ⟨place, _, _, _, rfl⟩ := Job.list_eq_ok listed
      exact visitEntries_keeps told acted (fun names g => ih) entries
        (told (.listed place) g (by simp) h)

end Traversal

namespace Insertion
open Job Traversal

variable {c : Config} {refusals : Refusals}

theorem run_keeps {I : Progress → Prop}
    (told : ∀ event g, (∀ outcome, event ≠ .reported outcome) → I g →
      I { g with journal := g.journal ++ [event] })
    (settled : ∀ names g, I g →
      I (progressOf (settle c refusals (c.root.below names) (relative names) g)))
    {g : Progress} (h : I g) : I (progressOf (run c refusals g)) := by
  have walked : I (progressOf (visit c.excludes (settle c refusals) (g.store.directoryCount + 1)
      (c.root.below []) (relative []) g)) :=
    visit_keeps told settled (g.store.directoryCount + 1) h
  rw [run_apply]
  cases result : visit c.excludes (settle c refusals) (g.store.directoryCount + 1)
      (c.root.below []) (relative []) g with
  | error fault g' => rwa [result] at walked
  | ok outcomes g' =>
    rw [result] at walked
    exact told _ g' (by simp) walked

theorem settle_dry_store (dry : c.dryRun = true) (p : Path) (rel : Text) (g : Progress) :
    (progressOf (settle c refusals p rel g)).store = g.store := by
  unfold settle
  cases c.eligible? rel with
  | none => rfl
  | some header =>
    have ends := processed c refusals p rel header g
    simp only [bind_apply]
    generalize process c refusals p rel header g = result at ends ⊢
    cases ends with
    | failed | kept | foreseen => rfl
    | updated _ _ _ real =>
      rw [dry] at real
      cases real

theorem run_dry_store (dry : c.dryRun = true) (refusals : Refusals) (g : Progress) :
    (progressOf (run c refusals g)).store = g.store := by
  apply run_keeps (I := fun g' => g'.store = g.store) (fun _ _ _ same => same) ?_ rfl
  intro names g' same
  rw [settle_dry_store dry, same]

end Insertion

end LicenseHeaders
