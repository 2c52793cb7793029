import Mathlib.Data.List.Nodup
import LicenseHeaders.Proofs.Descent
import LicenseHeaders.Proofs.Listing
import LicenseHeaders.Proofs.Replacement
import LicenseHeaders.Traversal

/-!
The walk, one step at a time. Each equation says what a part of the walk does from a given progress
on. The depth that the walk starts with is enough: the directories on the way down from the root
are all different, so there are no more of them than the store holds.
-/
namespace LicenseHeaders

namespace Job

theorem list_eq_ok {p : Path} {entries : List Entry} {g g' : Progress}
    (h : Job.list p g = .ok entries g') :
    ∃ place, g.store.locate p = .ok place ∧ g.store.IsDirectory place ∧
      entries = g.store.entriesIn place ∧
      g' = { g with journal := g.journal ++ [.listed place] } := by
  rw [list_apply] at h
  split at h
  · cases h
  · unfold Store.list at h
    cases found : g.store.locate p with
    | error cause => simp [found, bind, Except.bind] at h
    | ok place =>
      simp only [found, bind, Except.bind] at h
      cases held : g.store.get? place with
      | none => simp [held, throw, throwThe, MonadExceptOf.throw] at h
      | some node =>
        cases node with
        | file | link => simp [held, throw, throwThe, MonadExceptOf.throw] at h
        | directory =>
          simp only [held, pure, Except.pure] at h
          cases h
          exact ⟨place, rfl, held, rfl, rfl⟩

theorem list_of_locate {p : Path} {place : Location} {g : Progress} (null : '\x00' ∉ p.toText)
    (found : g.store.locate p = .ok place) (inside : g.store.IsDirectory place) :
    Job.list p g =
      .ok (g.store.entriesIn place) { g with journal := g.journal ++ [.listed place] } := by
  rw [list_apply, if_neg null]
  unfold Store.list
  have held : g.store.get? place = some .directory := inside
  simp [found, held, bind, Except.bind, pure, Except.pure]

theorem list_eq_error {p : Path} {fault : Fault} {g g' : Progress}
    (h : Job.list p g = .error fault g') : g' = g := by
  rw [list_apply] at h
  split at h
  · cases h
    rfl
  · split at h
    · cases h
    · cases h
      rfl

end Job

namespace Traversal

variable {α : Type} {prune : Text → Bool} {act : Path → Text → Job α}
variable {enter : Path → Text → Job (List α)} {directory : Path} {rel : Text} {g : Progress}

theorem visit_apply (depth : Nat) :
    visit prune act (depth + 1) directory rel g =
      match Job.list directory g with
      | .ok entries g' =>
        visitEntries prune act (visit prune act depth) directory rel entries g'
      | .error fault g' => .error fault g' := by
  rw [visit, Job.bind_apply]
  cases Job.list directory g with
  | error fault g' => rfl
  | ok entries g' => rfl

theorem locate_of_visit {depth : Nat} {outcomes : List α} {g' : Progress}
    (ran : visit prune act depth directory rel g = .ok outcomes g') :
    ∃ home, g.store.locate directory = .ok home ∧ g.store.IsDirectory home := by
  cases depth with
  | zero => cases ran
  | succ depth =>
    rw [visit_apply] at ran
    split at ran
    · rename_i entries between listed
      obtain ⟨home, found, inside, _⟩ := Job.list_eq_ok listed
      exact ⟨home, found, inside⟩
    · cases ran

theorem reaches_of_visit {depth : Nat} {outcomes : List α} {g' : Progress}
    (ran : visit prune act depth directory rel g = .ok outcomes g') :
    ∃ spent home, Store.Reaches g.store directory spent home := by
  obtain ⟨home, found, inside⟩ := locate_of_visit ran
  obtain ⟨spent, reached⟩ := Store.reaches_of_locate found inside
  exact ⟨spent, home, reached⟩

theorem visitEntries_cons_apply (entry : Entry) (rest : List Entry) :
    visitEntries prune act enter directory rel (entry :: rest) g =
      match visitEntry prune act enter directory rel entry g with
      | .ok now g' =>
        match visitEntries prune act enter directory rel rest g' with
        | .ok later g'' => .ok (now ++ later) g''
        | .error fault g'' => .error fault g''
      | .error fault g' => .error fault g' := by
  rw [visitEntries, Job.bind_apply]
  cases visitEntry prune act enter directory rel entry g with
  | error fault g' => rfl
  | ok now g' =>
    simp only [Job.bind_apply]
    cases visitEntries prune act enter directory rel rest g' with
    | error fault g'' => rfl
    | ok later g'' => rfl

theorem visitEntries_cons_eq_ok {entry : Entry} {rest : List Entry} {outcomes : List α}
    {g' : Progress}
    (ran : visitEntries prune act enter directory rel (entry :: rest) g = .ok outcomes g') :
    ∃ now between later, visitEntry prune act enter directory rel entry g = .ok now between ∧
      visitEntries prune act enter directory rel rest between = .ok later g' ∧
      outcomes = now ++ later := by
  rw [visitEntries_cons_apply] at ran
  split at ran
  · rename_i now between first
    split at ran
    · rename_i later g'' second
      cases ran
      exact ⟨now, between, later, first, second, rfl⟩
    · cases ran
  · cases ran

section Below

variable (p : Path) (names : Location) (name : Name)

theorem visitEntry_directory :
    visitEntry prune act enter (p.below names) (relative names) ⟨name, .directory⟩ g =
      if prune (relative (names ++ [name])) then
        .ok [] { g with journal :=
          g.journal ++ [.noted (.directorySkipped (relative (names ++ [name])))] }
      else enter (p.below (names ++ [name])) (relative (names ++ [name])) g := by
  rw [Path.below_concat, relative_concat]
  unfold visitEntry
  dsimp only
  split
  · simp
  · rfl

theorem visitEntry_file :
    visitEntry prune act enter (p.below names) (relative names) ⟨name, .file⟩ g =
      match act (p.below (names ++ [name])) (relative (names ++ [name])) g with
      | .ok a g' => .ok [a] g'
      | .error fault g' => .error fault g' := by
  rw [Path.below_concat, relative_concat]
  unfold visitEntry
  simp only [Job.bind_apply]
  cases act ((p.below names).child name.text) (Relative.child (relative names) name.text) g with
  | error fault g' => rfl
  | ok a g' => rfl

theorem visitEntry_link :
    visitEntry prune act enter (p.below names) (relative names) ⟨name, .link⟩ g =
      match g.store.kindAt (p.below (names ++ [name])) with
      | .ok .file =>
        match act (p.below (names ++ [name])) (relative (names ++ [name])) g with
        | .ok a g' => .ok [a] g'
        | .error fault g' => .error fault g'
      | .ok _ => .ok [] g
      | .error .notFound => .ok [] g
      | .error cause =>
        .error (.system (.ofCause cause (Path.behind (p.below names).toText name.text))) g := by
  rw [Path.below_concat, relative_concat]
  unfold visitEntry leadsToFile
  simp only [Job.bind_apply, Job.store_apply]
  cases g.store.kindAt ((p.below names).child name.text) with
  | ok kind =>
    cases kind with
    | directory | link => rfl
    | file =>
      cases acted : act ((p.below names).child name.text)
          (Relative.child (relative names) name.text) g with
      | error fault g' =>
        simp only [Job.pure_apply, decide_true, if_true, Job.bind_apply, acted]
      | ok a g' => simp only [Job.pure_apply, decide_true, if_true, Job.bind_apply, acted]
  | error cause => cases cause <;> rfl

variable {p names name} {outcomes : List α} {g' : Progress}

theorem visitEntry_file_eq_ok
    (ran : visitEntry prune act enter (p.below names) (relative names) ⟨name, .file⟩ g =
      .ok outcomes g') :
    ∃ a, act (p.below (names ++ [name])) (relative (names ++ [name])) g = .ok a g' ∧
      outcomes = [a] := by
  rw [visitEntry_file] at ran
  split at ran
  · rename_i a g'' acted
    cases ran
    exact ⟨a, acted, rfl⟩
  · cases ran

theorem visitEntry_link_eq_ok
    (ran : visitEntry prune act enter (p.below names) (relative names) ⟨name, .link⟩ g =
      .ok outcomes g') :
    (∃ a, g.store.kindAt (p.below (names ++ [name])) = .ok .file ∧
      act (p.below (names ++ [name])) (relative (names ++ [name])) g = .ok a g' ∧
      outcomes = [a]) ∨
    (g.store.kindAt (p.below (names ++ [name])) ≠ .ok .file ∧
      (∀ cause, g.store.kindAt (p.below (names ++ [name])) = .error cause → cause = .notFound) ∧
      outcomes = [] ∧ g' = g) := by
  rw [visitEntry_link] at ran
  cases found : g.store.kindAt (p.below (names ++ [name])) with
  | error cause =>
    rw [found] at ran
    cases cause with
    | notFound =>
      cases ran
      exact .inr ⟨by simp, by simp, rfl, rfl⟩
    | busy | notADirectory | isADirectory | nameTooLong | tooManyLinks => cases ran
  | ok kind =>
    rw [found] at ran
    cases kind with
    | directory | link =>
      cases ran
      exact .inr ⟨by simp, by simp, rfl, rfl⟩
    | file =>
      dsimp only at ran
      split at ran
      · rename_i a g'' acted
        cases ran
        exact .inl ⟨a, rfl, acted, rfl⟩
      · cases ran

end Below

end Traversal

namespace Store

theorem Descends.length_le {s : Store} {home names : Location} (h : s.Descends home names) :
    names.length ≤ s.directoryCount := by
  let way := (List.range names.length).map fun n => home ++ names.take (n + 1)
  have different : way.Nodup := by
    refine List.Nodup.map_on ?_ List.nodup_range
    intro a inA b inB same
    have lengths := congrArg List.length (List.append_cancel_left same)
    rw [List.mem_range] at inA inB
    rw [List.length_take, List.length_take] at lengths
    omega
  have held : way ⊆ (s.nodes.filter fun entry => entry.2 = .directory).map Prod.fst := by
    intro place member
    obtain ⟨n, inRange, rfl⟩ := List.mem_map.1 member
    have below : home ++ names.take (n + 1) ≠ [] := by
      rw [List.mem_range] at inRange
      intro empty
      have none := congrArg List.length (List.append_eq_nil_iff.1 empty).2
      rw [List.length_take, List.length_nil] at none
      omega
    have inside := h _ (List.take_prefix (n + 1) names)
    exact List.mem_map.2 ⟨_, List.mem_filter.2 ⟨mem_of_get? below inside, by simp⟩, rfl⟩
  have bounded := different.length_le_of_subset held
  simpa [way, directoryCount] using bounded

end Store

namespace Insertion
open Traversal

theorem run_apply (c : Config) (refusals : Refusals) (g : Progress) :
    run c refusals g =
      match visit c.excludes (settle c refusals) (g.store.directoryCount + 1) (c.root.below [])
          (relative []) g with
      | .ok outcomes g' =>
        let tally := Tally.ofOutcomes (outcomes.filterMap id)
        .ok tally { g' with journal :=
          g'.journal ++ [.noted (.scanned tally.total c.root tally.summary)] }
      | .error fault g' => .error fault g' := by
  unfold run overFiles
  rw [Path.below_nil, relative_nil]
  simp only [Job.bind_apply, Job.store_apply]
  cases visit c.excludes (settle c refusals) (g.store.directoryCount + 1) c.root [] g with
  | error fault g' => rfl
  | ok outcomes g' => rfl

theorem run_eq_ok {c : Config} {refusals : Refusals} {tally : Tally} {g g' : Progress}
    (ran : run c refusals g = .ok tally g') :
    ∃ outcomes between,
      visit c.excludes (settle c refusals) (g.store.directoryCount + 1) (c.root.below [])
        (relative []) g = .ok outcomes between ∧
      tally = .ofOutcomes (outcomes.filterMap id) ∧ g'.store = between.store := by
  rw [run_apply] at ran
  split at ran
  · rename_i outcomes between walked
    cases ran
    exact ⟨outcomes, between, walked, rfl, rfl⟩
  · cases ran

end Insertion

end LicenseHeaders
