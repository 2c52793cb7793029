import LicenseHeaders.Proofs.Batch
import LicenseHeaders.Proofs.SecondRun
import LicenseHeaders.Proofs.ReportedOutcomes
import LicenseHeaders.Proofs.Spelling

/-!
What a run writes down in the course of its work. Whenever no file is being dealt with, the log tells
of exactly the failures that have been reported, in the same order, only an update can have failed,
and the reports are in the order of the names on the way down. So it is also where a fault ends the
run, and what the run answers in the end is counted from the same reports.
-/
namespace LicenseHeaders

namespace Journal

def errors (j : Journal) : List Text := (j.notices.filter (·.level = .error)).map Notice.message

/-- No failure waits for the report of its file. -/
def AtRest (j : Journal) : Prop := ∀ failure, j.getLast? ≠ some (.noted (.moveFailed failure))

/-- The log tells of the failures of the reports, and only updates fail. -/
structure Balanced (j : Journal) : Prop where
  logged : j.errors = (j.outcomes.filterMap (·.failure)).map FailedMove.message
  updated : ∀ o ∈ j.outcomes, o.failure.isSome → o.status = .updated

structure Faithful (j : Journal) : Prop extends Balanced j where
  ordered : j.outcomes.Pairwise fun a b => a.path.splitOn '/' < b.path.splitOn '/'

theorem errors_append (j j' : Journal) : errors (j ++ j') = j.errors ++ j'.errors := by
  simp [errors, notices]

theorem outcomes_append (j j' : Journal) : outcomes (j ++ j') = j.outcomes ++ j'.outcomes := by
  simp [outcomes]

def closingOf (o : Outcome) : Journal :=
  (o.failure.map fun f => Event.noted (.moveFailed f)).toList ++ [.reported o]

theorem outcomes_closingOf (o : Outcome) : outcomes (closingOf o) = [o] := by
  unfold closingOf
  cases o.failure <;> rfl

theorem errors_closingOf (o : Outcome) :
    errors (closingOf o) = (o.failure.map FailedMove.message).toList := by
  unfold closingOf
  cases o.failure <;> rfl

theorem Balanced.append {j j' : Journal} (h : Balanced j) (h' : Balanced j') :
    Balanced (j ++ j') := by
  constructor
  · rw [errors_append, outcomes_append, h.logged, h'.logged, List.filterMap_append, List.map_append]
  · intro o member
    rw [outcomes_append] at member
    rcases List.mem_append.1 member with early | late
    · exact h.updated o early
    · exact h'.updated o late

end Journal

namespace Insertion
open Store Traversal Journal

/-- Events that report files of a kind, in order, and tell of their failures. -/
structure Tells (kind : Location → Prop) (new : Journal) : Prop where
  moments : ∀ part, part <+: new → AtRest part → Balanced part
  whole : Balanced new
  paths : ∃ xs : List Location, new.outcomes.map Outcome.path = xs.map relative ∧
    xs.Pairwise Before ∧ ∀ x ∈ xs, x ≠ [] ∧ kind x

namespace Tells

variable {kind kind' : Location → Prop} {new new' : Journal} {names : Location}

theorem mono (h : Tells kind new) (weaker : ∀ x, kind x → kind' x) : Tells kind' new := by
  obtain ⟨xs, paths, ordered, own⟩ := h.paths
  refine ⟨h.moments, h.whole, xs, paths, ordered, ?_⟩
  intro x member
  exact ⟨(own x member).1, weaker x (own x member).2⟩

theorem append (h : Tells kind new) (h' : Tells kind' new')
    (before : ∀ x y, kind x → kind' y → Before x y) :
    Tells (fun x => kind x ∨ kind' x) (new ++ new') := by
  obtain ⟨xs, paths, ordered, own⟩ := h.paths
  obtain ⟨ys, paths', ordered', own'⟩ := h'.paths
  refine ⟨?_, h.whole.append h'.whole, xs ++ ys, ?_, ?_, ?_⟩
  · intro part begins rest
    rcases List.prefix_or_prefix_of_prefix begins (List.prefix_append new new') with early | late
    · exact h.moments part early rest
    · obtain ⟨more, rfl⟩ := late
      refine h.whole.append (h'.moments more ((List.prefix_append_right_inj new).1 begins) ?_)
      intro failure last
      apply rest failure
      rw [List.getLast?_append, last]
      rfl
  · rw [outcomes_append, List.map_append, List.map_append, paths, paths']
  · refine List.pairwise_append.2 ⟨ordered, ordered', ?_⟩
    intro x early y late
    exact before x y (own x early).2 (own' y late).2
  · intro x member
    rcases List.mem_append.1 member with early | late
    · exact ⟨(own x early).1, .inl (own x early).2⟩
    · exact ⟨(own' x late).1, .inr (own' x late).2⟩

theorem silent (kind : Location → Prop) (quiet : new.outcomes = [] ∧ new.errors = []) :
    Tells kind new := by
  have nothing : ∀ part, part <+: new → Balanced part := by
    intro part begins
    obtain ⟨more, rfl⟩ := begins
    rw [outcomes_append, errors_append, List.append_eq_nil_iff, List.append_eq_nil_iff] at quiet
    obtain ⟨⟨none, _⟩, none', _⟩ := quiet
    constructor
    · rw [none, none']
      rfl
    · rw [none]
      simp
  refine ⟨fun part begins _ => nothing part begins, nothing new (List.prefix_refl new), [], ?_, .nil,
    by simp⟩
  rw [quiet.1]
  rfl

theorem closing (named : names ≠ []) {o : Outcome} (path : o.path = relative names)
    (updated : o.failure.isSome → o.status = .updated) : Tells (names = ·) (closingOf o) := by
  have whole : Balanced (closingOf o) := by
    constructor
    · rw [errors_closingOf, outcomes_closingOf]
      cases failure : o.failure <;> simp [failure]
    · rw [outcomes_closingOf]
      simpa using updated
  refine ⟨?_, whole, [names], ?_, List.pairwise_singleton _ _, ?_⟩
  · intro part begins rest
    rcases List.prefix_concat_iff.1 begins with rfl | waiting
    · exact whole
    · have none : part = [] := by
        cases failure : o.failure with
        | none => simpa [failure] using waiting
        | some f =>
          rw [failure] at waiting
          rcases List.prefix_cons_iff.1 waiting with none | ⟨more, rfl, nothing⟩
          · exact none
          · obtain rfl := List.prefix_nil.1 nothing
            exact absurd rfl (rest f)
      subst none
      exact ⟨rfl, by simp [Journal.outcomes]⟩
  · rw [outcomes_closingOf, List.map_singleton, List.map_singleton, path]
  · intro x member
    obtain rfl := List.mem_singleton.1 member
    exact ⟨named, rfl⟩

end Tells

variable {c : Config} {refusals : Refusals} {g g' : Progress} {p : Path} {names : Location}

theorem Replaced.journal {bytes : Bytes} {failure : Option FailedMove}
    (h : Replaced refusals p bytes g (.ok failure g')) :
    ∃ new : Journal, g'.journal = g.journal ++ new ∧ new.outcomes = [] ∧ new.errors = [] := by
  cases h with
  | @refused _ place | @stuck _ place => exact ⟨[.wrote place bytes], rfl, rfl, rfl⟩
  | @moved _ place old new =>
    exact ⟨[.wrote place bytes, .moved old new], List.append_assoc .., rfl, rfl⟩

def Accounts {α : Type} (kind : Location → Prop) (g : Progress)
    (result : EStateM.Result Fault Progress α) : Prop :=
  ∃ new, (Job.progressOf result).journal = g.journal ++ new ∧ Tells kind new

theorem Accounts.mono {α : Type} {kind kind' : Location → Prop}
    {result : EStateM.Result Fault Progress α} (h : Accounts kind g result)
    (weaker : ∀ x, kind x → kind' x) : Accounts kind' g result := by
  obtain ⟨new, journal, tells⟩ := h
  exact ⟨new, journal, tells.mono weaker⟩

theorem accounts_none {α : Type} {kind : Location → Prop}
    {result : EStateM.Result Fault Progress α} (same : Job.progressOf result = g) :
    Accounts kind g result :=
  ⟨[], by simp [same], .silent kind ⟨rfl, rfl⟩⟩

theorem settle_accounts (named : names ≠ []) :
    Accounts (names = ·) g (settle c refusals p (relative names) g) := by
  unfold settle
  cases c.eligible? (relative names) with
  | none => exact accounts_none rfl
  | some header =>
  simp only [Job.bind_apply]
  have ends := processed c refusals p (relative names) header g
  generalize process c refusals p (relative names) header g = result at ends ⊢
  cases ends with
  | failed fault => exact accounts_none rfl
  | kept =>
    let o : Outcome := { path := relative names, status := .ok }
    exact ⟨closingOf o, rfl, .closing named rfl (by simp [o])⟩
  | foreseen =>
    let o : Outcome := { path := relative names, status := .wouldUpdate }
    exact ⟨closingOf o, rfl, .closing named rfl (by simp [o])⟩
  | @updated _ failure g' _ _ _ _ done =>
    let o : Outcome := { path := relative names, status := .updated, failure }
    obtain ⟨new, journal, quiet⟩ := done.journal
    obtain ⟨work, journal', quiet'⟩ : ∃ work : Journal,
        g'.journal ++ [.noted (noticeOf (relative names) failure), .reported o] =
          g.journal ++ (work ++ closingOf o) ∧ work.outcomes = [] ∧ work.errors = [] := by
      rw [journal]
      cases failure with
      | none =>
        refine ⟨new ++ [.noted (.headerPrepended (relative names))], ?_, ?_⟩
        · simp [closingOf, noticeOf, o]
        · rw [outcomes_append, errors_append, quiet.1, quiet.2]
          exact ⟨rfl, rfl⟩
      | some failure => exact ⟨new, by simp [closingOf, noticeOf, o], quiet⟩
    have told : Tells (fun x => False ∨ names = x) (work ++ closingOf o) :=
      (Tells.silent (fun _ => False) quiet').append (.closing named rfl (fun _ => rfl)) (by simp)
    refine ⟨work ++ closingOf o, ?_, told.mono (by simp)⟩
    rw [← journal']
    simp [Job.progressOf, o]

section Walk

variable {enter : Path → Text → Job (List (Option Outcome))}
variable (entered : ∀ names g, Accounts (names <+: ·) g (enter (p.below names) (relative names) g))
include entered

theorem visitEntry_accounts (entry : Entry) :
    Accounts (names ++ [entry.name] <+: ·) g
      (visitEntry c.excludes (settle c refusals) enter (p.below names) (relative names) entry g) := by
  obtain ⟨name, kind⟩ := entry
  have settled : Accounts (names ++ [name] <+: ·) g
      (settle c refusals (p.below (names ++ [name])) (relative (names ++ [name])) g) := by
    refine (settle_accounts (by simp)).mono ?_
    intro x same
    exact same ▸ List.prefix_refl _
  generalize done : settle c refusals (p.below (names ++ [name])) (relative (names ++ [name])) g =
    result at settled
  cases kind with
  | directory =>
    rw [visitEntry_directory]
    split
    · exact ⟨_, rfl, .silent _ ⟨rfl, rfl⟩⟩
    · exact entered (names ++ [name]) g
  | file =>
    rw [visitEntry_file, done]
    cases result <;> exact settled
  | link =>
    rw [visitEntry_link, done]
    split
    · cases result <;> exact settled
    · exact accounts_none rfl
    · exact accounts_none rfl
    · exact accounts_none rfl

theorem visitEntries_accounts (entries : List Entry)
    (sorted : entries.Pairwise fun a b => Store.Earlier a.name b.name) :
    Accounts (fun x => ∃ entry ∈ entries, names ++ [entry.name] <+: x) g
      (visitEntries c.excludes (settle c refusals) enter (p.below names) (relative names) entries
        g) := by
  induction entries generalizing g with
  | nil => exact accounts_none rfl
  | cons entry rest ih =>
    obtain ⟨before, ordered⟩ := List.pairwise_cons.1 sorted
    have order : ∀ x y : Location, names ++ [entry.name] <+: x →
        (∃ other ∈ rest, names ++ [other.name] <+: y) → Before x y := by
      intro x y first given
      obtain ⟨other, member, second⟩ := given
      exact before_of_names first second (before other member)
    have now : Accounts (names ++ [entry.name] <+: ·) g (visitEntry c.excludes (settle c refusals)
        enter (p.below names) (relative names) entry g) := visitEntry_accounts entered entry
    rw [visitEntries_cons_apply]
    generalize visitEntry c.excludes (settle c refusals) enter (p.below names) (relative names)
      entry g = result at now ⊢
    obtain ⟨new, journal, tells⟩ := now
    cases result with
    | error fault g' =>
      exact ⟨new, journal, tells.mono fun x under => ⟨entry, List.mem_cons_self .., under⟩⟩
    | ok outcomes g' =>
      obtain ⟨new', journal', tells'⟩ := ih (g := g') ordered
      refine ⟨new ++ new', ?_, (tells.append tells' order).mono (by simp)⟩
      rw [show g'.journal = g.journal ++ new from journal, List.append_assoc] at journal'
      dsimp only
      generalize visitEntries c.excludes (settle c refusals) enter (p.below names) (relative names)
        rest g' = result at journal' ⊢
      cases result <;> exact journal'

end Walk

theorem visit_accounts (depth : Nat) :
    Accounts (names <+: ·) g
      (visit c.excludes (settle c refusals) depth (p.below names) (relative names) g) := by
  induction depth generalizing names g with
  | zero => exact accounts_none rfl
  | succ depth ih =>
    rw [visit_apply]
    cases listed : Job.list (p.below names) g with
    | error fault g' =>
      obtain rfl := Job.list_eq_error listed
      exact accounts_none rfl
    | ok entries between =>
      obtain ⟨place, _, _, rfl, rfl⟩ := Job.list_eq_ok listed
      let between : Progress := { g with journal := g.journal ++ [.listed place] }
      have walked : Accounts (fun x => ∃ entry ∈ g.store.entriesIn place, names ++ [entry.name] <+: x)
          between (visitEntries c.excludes (settle c refusals) (visit c.excludes (settle c refusals)
            depth) (p.below names) (relative names) (g.store.entriesIn place) between) :=
        visitEntries_accounts (fun names g => ih) _ (g.store.sorted_entriesIn place)
      obtain ⟨new, journal, tells⟩ := walked
      have start : Tells (fun _ => False) [.listed place] := .silent _ ⟨rfl, rfl⟩
      refine ⟨[.listed place] ++ new, ?_, (start.append tells (by simp)).mono ?_⟩
      · rw [← List.append_assoc]
        exact journal
      · intro x given
        obtain ⟨entry, _, under⟩ := given.resolve_left id
        exact (List.prefix_append _ _).trans under

theorem run_accounts : Accounts (fun _ => True) g (run c refusals g) := by
  have walked : Accounts (([] : Location) <+: ·) g (visit c.excludes (settle c refusals)
      (g.store.directoryCount + 1) (c.root.below []) (relative []) g) := visit_accounts _
  rw [run_apply]
  generalize visit c.excludes (settle c refusals) (g.store.directoryCount + 1) (c.root.below [])
    (relative []) g = result at walked ⊢
  obtain ⟨new, journal, tells⟩ := walked
  cases result with
  | error fault g' => exact ⟨new, journal, tells.mono fun _ _ => trivial⟩
  | ok outcomes g' =>
    have silent : Tells (fun _ => False) [.noted (.scanned
        (Tally.ofOutcomes (outcomes.filterMap id)).total c.root
        (Tally.ofOutcomes (outcomes.filterMap id)).summary)] := .silent _ ⟨rfl, rfl⟩
    refine ⟨_, ?_, (tells.append silent (by simp)).mono fun _ _ => trivial⟩
    rw [← List.append_assoc, ← journal]
    rfl

theorem Tells.faithful {new : Journal} (h : Tells (fun _ => True) new) :
    (∀ part : Journal, part <+: new → part.AtRest → part.Faithful) ∧ new.Faithful := by
  obtain ⟨xs, paths, before, own⟩ := h.paths
  have ordered : (new.outcomes.map Outcome.path).Pairwise fun a b =>
      a.splitOn '/' < b.splitOn '/' := by
    rw [paths, List.pairwise_map]
    refine before.imp_of_mem ?_
    intro a b inA inB earlier
    rw [splitOn_relative (own a inA).1, splitOn_relative (own b inB).1]
    exact earlier
  rw [List.pairwise_map] at ordered
  refine ⟨?_, h.whole, ordered⟩
  intro part begins rest
  refine ⟨h.moments part begins rest, ordered.sublist ?_⟩
  obtain ⟨more, rfl⟩ := begins
  rw [outcomes_append]
  exact List.sublist_append_left _ _

/-- Whatever the store holds and however the run ends, at each moment between two files the log and
the reports so far agree, and the tally of a run that returns is that of its reports. -/
theorem run_is_faithful (s : Store) (c : Config) (refusals : Refusals) :
    let g := Job.progressOf (run c refusals ⟨s, []⟩)
    (∀ part : Journal, part <+: g.journal → part.AtRest → part.Faithful) ∧ g.journal.Faithful ∧
    ∀ tally, run c refusals ⟨s, []⟩ = .ok tally g →
      tally.total = g.journal.outcomes.length ∧ tally.ok + tally.modified = tally.total ∧
      tally.modifiedFiles = (g.journal.outcomes.filter (·.status ≠ .ok)).map Outcome.path ∧
      tally.modified = tally.modifiedFiles.length ∧
      tally.failures = g.journal.outcomes.filter (·.failure.isSome) ∧
      tally.failures.Sublist (g.journal.outcomes.filter (·.status ≠ .ok)) := by
  intro g
  have accounts : Accounts (fun _ => True) ⟨s, []⟩ (run c refusals ⟨s, []⟩) := run_accounts
  obtain ⟨new, journal, tells⟩ := accounts
  rw [List.nil_append] at journal
  have whole : Tells (fun _ => True) g.journal := journal ▸ tells
  refine ⟨whole.faithful.1, whole.faithful.2, ?_⟩
  intro tally ran
  obtain ⟨outcomes, reported, rfl⟩ := run_reports ran
  obtain rfl : g.journal.outcomes = outcomes := reported
  have counted : g.journal.outcomes.length = g.journal.outcomes.countP (·.status = .ok) +
      g.journal.outcomes.countP (·.status ≠ .ok) := by
    simpa using List.length_eq_countP_add_countP (fun o : Outcome => decide (o.status = .ok))
  have modified : g.journal.outcomes.filter (·.failure.isSome) =
      (g.journal.outcomes.filter (·.status ≠ .ok)).filter (·.failure.isSome) := by
    rw [List.filter_filter]
    apply List.filter_congr
    intro o member
    cases failed : o.failure.isSome with
    | false => rfl
    | true => simp [whole.whole.updated o member failed]
  rw [Tally.ofOutcomes_eq]
  refine ⟨counted.symm, rfl, rfl, ?_, rfl, ?_⟩
  · simp only [List.length_map, List.countP_eq_length_filter]
  · simp only [modified]
    exact List.filter_sublist

/-- The run is looked at when its first file has been dealt with, whose move is refused. -/
theorem run_is_faithful_linkedFile :
    let s := linkedFile ⟨"a.c", by decide⟩ ⟨"b.c", by decide⟩
    let refusals : Refusals := fun p => if p = "a.c".toList then some ⟨13, "no"⟩ else none
    let g := Job.progressOf (run licenseOnly refusals ⟨s, []⟩)
    let tally := Tally.ofOutcomes g.journal.outcomes
    let part : Journal := g.journal.take 4
    part.outcomes.length = 1 ∧ part.AtRest ∧ part.Faithful ∧ g.journal.Faithful ∧
      run licenseOnly refusals ⟨s, []⟩ = .ok tally g ∧ tally.failures.length = 1 ∧
      tally.total = g.journal.outcomes.length ∧ tally.modified = tally.modifiedFiles.length := by
  intro s refusals g tally part
  have ran : run licenseOnly refusals ⟨s, []⟩ = .ok tally g := by decide +kernel
  have last : part.getLast? = part.outcomes.getLast?.map .reported := by decide +kernel
  have rest : part.AtRest := by
    intro failure waiting
    rw [waiting] at last
    cases reported : part.outcomes.getLast? <;> simp [reported] at last
  obtain ⟨moments, whole, counts⟩ := run_is_faithful s licenseOnly refusals
  obtain ⟨total, _, _, modified, _⟩ := counts tally ran
  exact ⟨by decide +kernel, rest, moments part (List.take_prefix 4 _) rest, whole, ran,
    by decide +kernel, total, modified⟩

end Insertion

end LicenseHeaders
