import LicenseHeaders.Proofs.WalkInvariants
import LicenseHeaders.Proofs.WalkAsBatch
import LicenseHeaders.Proofs.SecondRun

/-!
The dry run. Where the real run returns, the dry one comes through as well: it lists the same
directories and reads the same files, all of them as they were at the beginning. Both then deal with
the same batch, and of each file the dry run tells what the real one does with it.
-/
namespace LicenseHeaders

/-- What a dry run reports where a run reports this. -/
def Outcome.foreseen (o : Outcome) : Outcome where
  path := o.path
  status := if o.status = .updated then .wouldUpdate else o.status

@[simp] theorem Outcome.foreseen_path (o : Outcome) : o.foreseen.path = o.path := rfl

@[simp] theorem Outcome.foreseen_failure (o : Outcome) : o.foreseen.failure = none := rfl

@[simp] theorem Outcome.foreseen_ok_iff (o : Outcome) : o.foreseen.status = .ok ↔ o.status = .ok := by
  cases status : o.status <;> simp [foreseen, status]

theorem Tally.ofOutcomes_foreseen (outcomes : List Outcome) :
    ofOutcomes (outcomes.map Outcome.foreseen) = { ofOutcomes outcomes with failures := [] } := by
  rw [ofOutcomes_eq, ofOutcomes_eq]
  simp [List.countP_map, List.filter_map, Function.comp_def]

def Config.dry (c : Config) : Config := { c with dryRun := true }

namespace Insertion
open Store Traversal

variable {s : Store} {c : Config} {refusals refusals' : Refusals}

theorem Candidate.outcome_dry {x : Candidate} (real : c.dryRun = false) (refusals refusals' : Refusals) :
    x.outcome c.dry refusals' = (x.outcome c refusals).foreseen := by
  unfold outcome
  by_cases compliant : x.Compliant c
  · rw [if_pos compliant, if_pos (show x.Compliant c.dry from compliant)]
    rfl
  · rw [if_neg compliant, if_neg (show ¬ x.Compliant c.dry from compliant), real]
    rfl

theorem isCandidate_dry {x : Candidate} : IsCandidate s c.dry x ↔ IsCandidate s c x :=
  ⟨fun h => ⟨h.below, h.named, h.file, h.header, h.included⟩,
    fun h => ⟨h.below, h.named, h.file, h.header, h.included⟩⟩

theorem IsBatch.dry {batch : List Candidate} (h : IsBatch s c batch) : IsBatch s c.dry batch :=
  ⟨fun x => (h.complete x).trans isCandidate_dry.symm, h.ordered⟩

theorem spared_dry (s : Store) (c : Config) (refusals : Refusals) : Spared s c.dry refusals := by
  intro x y _ _ updated
  cases updated.2

/-- A part of a walk has come to its end with the store as it was. -/
def Through (s : Store) : EStateM.Result Fault Progress (List (Option Outcome)) → Prop
  | .ok _ g => g.store = s
  | .error _ _ => False

theorem Through.bind {x : Job (List (Option Outcome))}
    {f : List (Option Outcome) → Job (List (Option Outcome))} {g : Progress}
    (first : Through s (x g)) (goesOn : ∀ now g', g'.store = s → Through s (f now g')) :
    Through s ((x >>= f) g) := by
  rw [Job.bind_apply]
  generalize x g = result at first ⊢
  cases result with
  | error => exact first.elim
  | ok now g' => exact goesOn now g' first

section Walk

variable {g g' g₂ : Progress} {spent : Nat} {home directory : Location} {name : Name}

theorem process_dry {p : Path} {rel : Text} {header : Header} {contents : Bytes}
    (plain : '\x00' ∉ p.toText) (read : g₂.store.read p = .ok contents) :
    ∃ outcome, process c.dry refusals' p rel header g₂ = .ok outcome g₂ := by
  unfold process readSource
  simp only [Job.bind_apply, Job.read_apply, plain, if_false, read, Job.pure_apply]
  split
  · exact ⟨_, rfl⟩
  · exact ⟨_, rfl⟩

theorem settle_dry (arrived : Reaches s (c.root.below directory) spent (home ++ directory))
    {contents : Bytes} (file : s.get? (home ++ directory ++ [name]) = some (.file contents))
    {now : Option Outcome}
    (ran : settle c refusals (c.root.below (directory ++ [name])) (relative (directory ++ [name])) g =
      .ok now g') (current : g₂.store = s) :
    ∃ now' g₂', settle c.dry refusals' (c.root.below (directory ++ [name]))
      (relative (directory ++ [name])) g₂ = .ok now' g₂' ∧ g₂'.store = s := by
  unfold settle at ran ⊢
  rw [show c.dry.eligible? = c.eligible? from rfl]
  cases eligible : c.eligible? (relative (directory ++ [name])) with
  | none => exact ⟨_, _, rfl, current⟩
  | some header =>
    rw [eligible] at ran
    simp only [Job.bind_apply] at ran ⊢
    have ends := processed c refusals (c.root.below (directory ++ [name]))
      (relative (directory ++ [name])) header g
    have readable : '\x00' ∉ (c.root.below (directory ++ [name])).toText ∧
        Fits (c.root.below (directory ++ [name])) := by
      generalize process c refusals (c.root.below (directory ++ [name]))
        (relative (directory ++ [name])) header g = result at ends ran
      cases ends with
      | failed => cases ran
      | kept plain read | foreseen plain read | updated plain read =>
        exact ⟨plain, (read_eq_ok read).1⟩
    obtain ⟨plain, fits⟩ := readable
    rw [Path.below_concat] at fits
    have read := arrived.read_file fits file
    rw [← Path.below_concat, ← current] at read
    obtain ⟨outcome, done⟩ := process_dry plain read
    rw [done]
    exact ⟨_, _, rfl, current⟩

variable (noLinks : ∀ place target, s.get? place ≠ some (.link target))
variable (reached : Reaches s c.root spent home) (down : s.Descends home directory)
variable (current : g₂.store = s) (refusals')
include noLinks reached down current

theorem visitEntry_through {enter enter' : Path → Text → Job (List (Option Outcome))} {node : Node}
    (held : s.get? (home ++ directory ++ [name]) = some node) {outcomes : List (Option Outcome)}
    (entered : s.Descends home (directory ++ [name]) →
      enter (c.root.below (directory ++ [name])) (relative (directory ++ [name])) g =
        .ok outcomes g' →
      Through s (enter' (c.root.below (directory ++ [name])) (relative (directory ++ [name])) g₂))
    (ran : visitEntry c.excludes (settle c refusals) enter (c.root.below directory)
      (relative directory) ⟨name, node.kind⟩ g = .ok outcomes g') :
    Through s (visitEntry c.excludes (settle c.dry refusals') enter' (c.root.below directory)
      (relative directory) ⟨name, node.kind⟩ g₂) := by
  cases node with
  | directory =>
    rw [Node.kind, visitEntry_directory] at ran ⊢
    split
    · exact current
    · rename_i included
      rw [if_neg included] at ran
      exact entered (descends_concat.2 ⟨down, held⟩) ran
  | file contents =>
    obtain ⟨now, settled, _⟩ := visitEntry_file_eq_ok ran
    obtain ⟨now', g₂', settled', kept⟩ := settle_dry (reached.below down) held settled current
    rw [Node.kind, visitEntry_file, settled']
    exact kept
  | link target => exact absurd held (noLinks _ target)

variable (spared : Spared s c refusals) (found : s.locate c.root = .ok home)
include spared found

theorem visitEntries_through {depth : Nat}
    (entered : ∀ name done g g₂ outcomes g', Underway s c refusals done g →
      (∀ x ∈ done, Before x.names (directory ++ [name])) → s.Descends home (directory ++ [name]) →
      g₂.store = s →
      visit c.excludes (settle c refusals) depth (c.root.below (directory ++ [name]))
        (relative (directory ++ [name])) g = .ok outcomes g' →
      Through s (visit c.excludes (settle c.dry refusals') depth
        (c.root.below (directory ++ [name])) (relative (directory ++ [name])) g₂))
    (entries : List Entry) (sorted : entries.Pairwise fun a b => Store.Earlier a.name b.name)
    (held : ∀ entry ∈ entries, ∃ node, s.get? (home ++ directory ++ [entry.name]) = some node ∧
      entry.kind = node.kind)
    {done : List Candidate} (h : Underway s c refusals done g)
    (fresh : ∀ entry ∈ entries, ∀ x ∈ done, Before x.names (directory ++ [entry.name]))
    {outcomes : List (Option Outcome)}
    (ran : visitEntries c.excludes (settle c refusals) (visit c.excludes (settle c refusals) depth)
      (c.root.below directory) (relative directory) entries g = .ok outcomes g') :
    Through s (visitEntries c.excludes (settle c.dry refusals')
      (visit c.excludes (settle c.dry refusals') depth) (c.root.below directory)
      (relative directory) entries g₂) := by
  induction entries generalizing done g g₂ outcomes with
  | nil => exact current
  | cons entry rest ih =>
    obtain ⟨before, ordered⟩ := List.pairwise_cons.1 sorted
    obtain ⟨node, there, kind⟩ := held entry (List.mem_cons_self ..)
    obtain ⟨name, kind'⟩ := entry
    obtain rfl : kind' = node.kind := kind
    have ahead := fresh _ (List.mem_cons_self ..)
    obtain ⟨now, between, later, first, second, rfl⟩ := visitEntries_cons_eq_ok ran
    have dealt := handled_entry reached noLinks spared found h down there ahead
      (fun inside => handled_visit reached noLinks spared found depth inside h ahead)
    rw [first] at dealt
    obtain ⟨seen, whole, _, underway⟩ := dealt
    have fresh' : ∀ other ∈ rest, ∀ x ∈ done ++ seen,
        Before x.names (directory ++ [other.name]) := by
      intro other member x early
      rcases List.mem_append.1 early with early | early
      · exact fresh other (List.mem_cons_of_mem _ member) x early
      · have own := ((whole.members x).1 early).2
        exact before_of_names own (List.prefix_refl _) (before other member)
    have step := visitEntry_through refusals' noLinks reached down current there
      (fun inside ran => entered name done g g₂ now between h ahead inside current ran) first
    rw [visitEntries]
    refine step.bind fun now' between' current' => ?_
    refine Through.bind ?_ fun later' g₂' current'' => current''
    exact ih current' ordered (fun other member => held other (List.mem_cons_of_mem _ member))
      underway fresh' second

theorem visit_through (depth : Nat) {done : List Candidate} (h : Underway s c refusals done g)
    (fresh : ∀ x ∈ done, Before x.names directory) {outcomes : List (Option Outcome)}
    (ran : visit c.excludes (settle c refusals) depth (c.root.below directory) (relative directory)
      g = .ok outcomes g') :
    Through s (visit c.excludes (settle c.dry refusals') depth (c.root.below directory)
      (relative directory) g₂) := by
  induction depth generalizing directory done g g₂ outcomes g' with
  | zero => cases ran
  | succ depth ih =>
    rw [visit_apply] at ran
    generalize listed : Job.list (c.root.below directory) g = result at ran
    cases result with
    | error => cases ran
    | ok entries between =>
    have plain : '\x00' ∉ (c.root.below directory).toText := by
      intro null
      rw [Job.list_apply, if_pos null] at listed
      cases listed
    obtain ⟨place, located, inside, rfl, rfl⟩ := Job.list_eq_ok listed
    have fits := (leads_of_locate located inside (by simp [Node.kind])).1
    obtain ⟨_, arrived⟩ := reaches_of_locate located inside
    obtain ⟨_, rfl⟩ := arrived.unique (h.reaches reached down)
    -- what has been dealt with stands before this directory, so its listing is still the first
    have same := listing_eq reached h fresh
    subst current
    rw [entriesIn_congr same] at ran
    rw [visit_apply, Job.list_of_locate plain ((reached.below down).locate fits) down.inside]
    refine visitEntries_through refusals' noLinks reached down ?_ spared found ?_ _
      (g₂.store.sorted_entriesIn _) (fun entry member => mem_entriesIn.1 member)
      (h.record (.listed (home ++ directory)) (by simp)) ?_ ran
    · rfl
    · intro name done g g₃ outcomes g' h fresh down current ran
      exact ih down current h fresh ran
    · intro entry _ x early
      exact (fresh x early).append [entry.name]

end Walk

theorem run_dry_returns (noLinks : ∀ place target, s.get? place ≠ some (.link target))
    (spared : Spared s c refusals) {tally : Tally} {g : Progress}
    (ran : run c refusals ⟨s, []⟩ = .ok tally g) (refusals' : Refusals) :
    ∃ tally' g', run c.dry refusals' ⟨s, []⟩ = .ok tally' g' := by
  obtain ⟨outcomes, between, walked, _, _⟩ := run_eq_ok ran
  obtain ⟨home, found, inside⟩ := locate_of_visit walked
  rw [Path.below_nil] at found
  obtain ⟨spent, reached⟩ := reaches_of_locate found inside
  have start : Underway s c refusals [] ⟨s, []⟩ :=
    ⟨by simp, Settled.start s c refusals, rfl⟩
  have current : (⟨s, []⟩ : Progress).store = s := rfl
  have through := visit_through refusals' noLinks reached (descends_nil.2 inside) current spared
    found _ start (by simp) walked
  rw [run_apply]
  change Through s (visit c.dry.excludes (settle c.dry refusals') (s.directoryCount + 1)
    (c.dry.root.below []) (relative []) ⟨s, []⟩) at through
  dsimp only
  generalize visit c.dry.excludes (settle c.dry refusals') (s.directoryCount + 1)
    (c.dry.root.below []) (relative []) ⟨s, []⟩ = result at through ⊢
  cases result with
  | error => exact through.elim
  | ok outcomes' g' => exact ⟨_, _, rfl⟩

/-- What a run tells that ends with the second tally, of one that ends with the first. -/
structure Foretells (tally : Tally) (g : Progress) (tally' : Tally) (g' : Progress) : Prop where
  outcomes : g'.journal.outcomes = g.journal.outcomes.map Outcome.foreseen
  ok : tally'.ok = tally.ok
  modified : tally'.modified = tally.modified
  files : tally'.modifiedFiles = tally.modifiedFiles
  summary : tally'.summary = tally.summary
  failures : tally'.failures = []

/-- The dry run returns where the real one does, and foretells it. No dry run changes the store. -/
theorem run_dry_foretells (c : Config) :
    (∀ (s : Store) (refusals refusals' : Refusals) (tally : Tally) (g : Progress),
      (∀ place target, s.get? place ≠ some (.link target)) → c.dryRun = false →
      c.registry.get? temporaryEnding = none →
      (∀ x y, IsCandidate s c x → IsCandidate s c y → x.Updated c →
        refusals (x.path c).toText ≠ none → y.Updated c → Beside x.place y.place →
        ∃ name ∈ x.names.getLast?, ∃ letter ∈ name.text, letter ≠ '.') →
      run c refusals ⟨s, []⟩ = .ok tally g →
      ∃ tally' g', run c.dry refusals' ⟨s, []⟩ = .ok tally' g' ∧ Foretells tally g tally' g') ∧
    ∀ (s : Store) (refusals : Refusals),
      (Job.progressOf (run c.dry refusals ⟨s, []⟩)).store = s := by
  refine ⟨?_, fun s refusals => run_dry_store rfl refusals ⟨s, []⟩⟩
  intro s refusals refusals' tally g noLinks real free dots ran
  have spared := spared_of_dots free dots
  obtain ⟨tally', g', ran'⟩ := run_dry_returns noLinks spared ran refusals'
  have first := run_underway refusals noLinks spared
  have second := run_underway refusals' noLinks (spared_dry s c refusals')
  rw [ran] at first
  rw [ran'] at second
  obtain ⟨batch, isBatch, rfl, underway⟩ := first
  obtain ⟨batch', isBatch', rfl, underway'⟩ := second
  obtain rfl := isBatch.dry.unique isBatch'
  have foreseen : batch.map (·.outcome c.dry refusals') =
      (batch.map (·.outcome c refusals)).map Outcome.foreseen := by
    simp [Candidate.outcome_dry real refusals refusals']
  rw [foreseen, Tally.ofOutcomes_foreseen] at ran'
  refine ⟨_, g', ran', ⟨?_, rfl, rfl, rfl, rfl, rfl⟩⟩
  rw [underway.reported, underway'.reported, foreseen]

/-- One of the moves is refused. -/
theorem run_dry_foretells_two_files :
    let s := twoFiles ⟨"a.c", by decide⟩ ⟨"b.c", by decide⟩ [72] [98]
    let c := oneExtension ".c" "H"
    let refusals : Refusals := fun p => if p = "b.c".toList then some ⟨13, []⟩ else none
    let g := Job.progressOf (run c refusals ⟨s, []⟩)
    run c refusals ⟨s, []⟩ = .ok (.ofOutcomes g.journal.outcomes) g ∧
      ∃ tally' g', run c.dry refusals ⟨s, []⟩ = .ok tally' g' ∧
        Foretells (.ofOutcomes g.journal.outcomes) g tally' g' := by
  intro s c refusals g
  have ran : run c refusals ⟨s, []⟩ = .ok (.ofOutcomes g.journal.outcomes) g := by decide +kernel
  refine ⟨ran, (run_dry_foretells c).1 s refusals refusals _ g (noLinks_of_nodes (by decide))
    (by decide) (by decide) ?_ ran⟩
  intro x y candidate _ _ _ _ _
  exact candidate.letter (by decide)

/-- The temporary file of `...` is left behind with the header in it, in place of a file that lacks
the header. -/
theorem run_dry_not_foretells_dots :
    let s := twoFiles ⟨"...", by decide⟩ ⟨"....new", by decide⟩ [97] [98]
    let c := oneExtension [] "H"
    let refusals : Refusals := fun p => if p = "...".toList then some ⟨13, []⟩ else none
    (∀ place target, s.get? place ≠ some (.link target)) ∧ c.dryRun = false ∧
      c.registry.get? temporaryEnding = none ∧
      ∃ tally g tally' g', run c refusals ⟨s, []⟩ = .ok tally g ∧
        run c.dry refusals ⟨s, []⟩ = .ok tally' g' ∧ ¬ Foretells tally g tally' g' := by
  intro s c refusals
  let g := Job.progressOf (run c refusals ⟨s, []⟩)
  let g' := Job.progressOf (run c.dry refusals ⟨s, []⟩)
  have ran : run c refusals ⟨s, []⟩ = .ok (.ofOutcomes g.journal.outcomes) g := by decide +kernel
  have ran' : run c.dry refusals ⟨s, []⟩ = .ok (.ofOutcomes g'.journal.outcomes) g' := by
    decide +kernel
  refine ⟨noLinks_of_nodes (by decide), by decide, by decide, _, g, _, g', ran, ran', ?_⟩
  intro foretells
  have counted := foretells.ok
  revert counted
  decide +kernel

end Insertion

end LicenseHeaders
