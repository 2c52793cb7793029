import LicenseHeaders.CommandLine.Execution
import LicenseHeaders.Proofs.UntouchedFiles
import LicenseHeaders.Proofs.Loading
import LicenseHeaders.Proofs.ReportedOutcomes
import LicenseHeaders.Proofs.SecondRun

/-!
A call after a call. The second call loads its templates again, from files that may have got headers
by the first. As long as the header template is what it was, and the modeline template can be
opened, that makes no difference: a modeline is nothing that a file could lack, and in front of a
modeline there is only more text. But a header template that has got a header is another one.
-/
namespace LicenseHeaders

theorem Tally.summary_of_fine (n : Nat) :
    ({ ok := n } : Tally).summary = "0 files changed, " ++ Text.decimal n ++ " files ok." := by
  have changed : Text.decimal 0 ++ " files changed, ".toList = "0 files changed, ".toList := by decide
  rw [summary, changed]

namespace Insertion
open Store Traversal

variable {s : Store} {c c' : Config} {refusals : Refusals} {home names : Location}

/-- The second configuration looks at the same files, and is content with all that the first is
content with. -/
structure NoStricter (c c' : Config) : Prop where
  root : c'.root = c.root
  excludes : c'.excludes = c.excludes
  content : ∀ rel header', c'.eligible? rel = some header' →
    ∃ header, c.eligible? rel = some header ∧
      ∀ content, c.needsHeader rel content header = false →
        c'.needsHeader rel content header' = false

theorem noStricter_of_draft (r : Request) (env : Environment) (license modeline modeline' : Text) :
    NoStricter (.ofDraft (r.draft env license modeline))
      (.ofDraft (r.draft env license modeline')) := by
  refine ⟨rfl, rfl, ?_⟩
  intro rel header' eligible
  unfold Config.eligible? at eligible
  split at eligible
  · cases eligible
  · rename_i included
    obtain ⟨l, own, rfl⟩ := (Config.header?_of_draft_eq_some_iff rfl).1 eligible
    have known : (Config.ofDraft (r.draft env license modeline)).header? rel =
        some (Registry.headerFor license modeline l) := Config.header?_of_draft rfl own
    refine ⟨Registry.headerFor license modeline l, ?_, fun _ fine => fine⟩
    rw [← known]
    exact if_neg included

section NoStricter

variable (rules : NoStricter c c')
include rules

theorem Calm.noStricter (calm : Calm s c names) : Calm s c' names := by
  intro header' eligible'
  obtain ⟨header, eligible, less⟩ := rules.content _ _ eligible'
  obtain ⟨plain, contents, read, fine⟩ := calm header eligible
  rw [rules.root]
  exact ⟨plain, contents, read, less _ fine⟩

theorem Quiet.noStricter {name : Name} (quiet : Quiet s c home (names ++ [name])) :
    Quiet s c' home (names ++ [name]) := by
  cases held : s.get? (home ++ names ++ [name]) with
  | none => exact quiet_of_missing held
  | some node =>
  cases node with
  | directory =>
    rw [quiet_directory held, rules.root, rules.excludes]
    exact (quiet_directory held).1 quiet
  | file contents => exact (quiet_file held).2 (((quiet_file held).1 quiet).noStricter rules)
  | link target =>
    obtain ⟨calm, fault⟩ := (quiet_link held).1 quiet
    rw [quiet_link held, rules.root]
    exact ⟨fun found => (calm found).noStricter rules, fault⟩

theorem QuietBelow.noStricter (quiet : QuietBelow s c home names) : QuietBelow s c' home names := by
  intro more under listed name
  have listed' : Listed s c home more := by
    rw [Listed, ← rules.excludes]
    exact listed
  exact (quiet more under listed' name).noStricter rules

end NoStricter

/-- A run would come to its end, and change nothing. -/
structure Tidy (s : Store) (c : Config) : Prop where
  fits : Fits c.root
  plain : '\x00' ∉ c.root.toText
  quiet : ∃ spent home, Reaches s c.root spent home ∧ QuietBelow s c home []

theorem Tidy.noStricter (h : Tidy s c) (rules : NoStricter c c') : Tidy s c' := by
  obtain ⟨fits, plain, spent, home, reached, quiet⟩ := h
  rw [← rules.root] at fits plain reached
  exact ⟨fits, plain, spent, home, reached, quiet.noStricter rules⟩

theorem run_leaves_tidy {tally : Tally} {g g' : Progress} (tree : g.store.IsTree)
    (plain : g.store.NoTemporaryLink) (real : c.dryRun = false)
    (ran : run c refusals g = .ok tally g') (clean : tally.failures = []) :
    Later g.store g'.store ∧ Tidy g'.store c := by
  obtain ⟨outcomes, between, walked, rfl, same⟩ := run_eq_ok ran
  obtain ⟨spent, home, reached⟩ := reaches_of_visit walked
  rw [Path.below_nil] at reached
  have noFailure : ∀ outcome, some outcome ∈ outcomes → outcome.failure = none := by
    intro outcome member
    exact Tally.failures_eq_nil clean outcome (by simpa using member)
  have visited := visit_quiet real _ ⟨tree, plain, reached⟩ (descends_nil.2 reached.inside) walked
    noFailure
  rw [← same] at visited
  obtain ⟨later, fits, null, below⟩ := visited
  rw [Path.below_nil] at fits null
  exact ⟨later, fits, null, spent, home, later.reaches reached, below⟩

theorem Tidy.run (h : Tidy s c) (refusals : Refusals) (journal : Journal) :
    ∃ outcomes g', run c refusals ⟨s, journal⟩ = .ok { ok := outcomes.length } g' ∧ g'.store = s ∧
      g'.journal.outcomes = journal.outcomes ++ outcomes ∧
      ∀ o ∈ outcomes, o.status = .ok ∧ o.failure = none := by
  obtain ⟨fits, plain, spent, home, reached, quiet⟩ := h
  rw [← Path.below_nil c.root] at fits plain
  have walked := visit_unchanged refusals (g := ⟨s, journal⟩) (s.directoryCount + 1) reached
    (listed_nil reached.inside) rfl fits plain quiet rfl
  rw [run_apply]
  dsimp only
  generalize result : visit c.excludes (settle c refusals) (s.directoryCount + 1) (c.root.below [])
    (relative []) ⟨s, journal⟩ = ended at walked ⊢
  cases ended with
  | error => exact walked.elim
  | ok outcomes g' =>
  obtain ⟨unchanged, fine⟩ := walked
  have allFine : ∀ o ∈ outcomes.filterMap id, o.status = .ok ∧ o.failure = none := by
    intro o member
    exact fine o (by simpa using member)
  dsimp only
  rw [Tally.of_fine allFine]
  refine ⟨outcomes.filterMap id, _, rfl, unchanged, ?_, allFine⟩
  rw [← visit_reports _ result]
  simp [Journal.outcomes]

end Insertion

namespace CommandLine
open Store Insertion

/-- Whether a call is verbose and what it asks for, if it is one that is to apply headers. -/
def applied? (env : Environment) (arguments : List Text) : Option (Bool × Request) :=
  match readArguments (Page.program.options []) false arguments with
  | .error _ => none
  | .ok outer =>
    match outer.eager?, outer.others with
    | none, command :: rest =>
      match Page.commands.lookup command with
      | some .apply =>
        match readArguments (Page.apply.options env.headerFile) true rest with
        | .error _ => none
        | .ok inner =>
          if inner.eager? = none ∧ inner.others = [] then some (outer.has .verbose, request inner)
          else none
      | _ => none
    | _, _ => none

theorem applied?_eq_some {env : Environment} {arguments : List Text} {verbose : Bool} {r : Request}
    (asked : applied? env arguments = some (verbose, r)) : ∃ outer command rest inner,
      readArguments (Page.program.options []) false arguments = .ok outer ∧ outer.eager? = none ∧
      outer.others = command :: rest ∧ Page.commands.lookup command = some .apply ∧
      readArguments (Page.apply.options env.headerFile) true rest = .ok inner ∧
      inner.eager? = none ∧ inner.others = [] ∧ verbose = outer.has .verbose ∧
      r = request inner := by
  unfold applied? at asked
  split at asked
  · cases asked
  · rename_i outer read
    split at asked
    · rename_i command rest eager others
      split at asked
      · rename_i known
        split at asked
        · cases asked
        · rename_i inner read'
          split at asked
          · rename_i plain
            cases asked
            exact ⟨outer, command, rest, inner, read, eager, others, known, read', plain.1, plain.2,
              rfl, rfl⟩
          · cases asked
      · cases asked
    · cases asked

section Call

variable {around : Surroundings} {s : Store} {arguments : List Text} {verbose : Bool} {r : Request}

theorem execute_of_applied (asked : applied? around.environment arguments = some (verbose, r)) :
    execute around s arguments =
      if '\x00' ∈ r.root then { exit := 1, fault := some .nullInPath, store := s }
      else match checkRoot s r.root with
        | .error e => refuse s .apply e
        | .ok () => present around verbose ((apply around r).run ⟨s, []⟩) := by
  obtain ⟨outer, command, rest, inner, read, eager, others, known, read', eager', noOthers, rfl, rfl⟩ :=
    applied?_eq_some asked
  have given : arguments ≠ [] := by
    intro none
    subst none
    cases asked
  have answered : eagerAnswer? around s .program outer = none := by
    rw [eagerAnswer?, eager, Option.map_none]
  have answered' : eagerAnswer? around s .apply inner = none := by
    rw [eagerAnswer?, eager', Option.map_none]
  have checked : checkOthers inner = .ok () := if_pos noOthers
  cases check : checkRoot s (request inner).root <;>
    simp only [execute, given, if_false, read, answered, others, known, executeCommand, read',
      answered', checked, executeCommand.checked, check]

theorem execute_of_exit (asked : applied? around.environment arguments = some (verbose, r))
    (exit : (execute around s arguments).exit = 0) :
    '\x00' ∉ r.root ∧ checkRoot s r.root = .ok () ∧ ∃ license modeline tally g,
      r.Finds around.environment s license modeline ∧
      run (.ofDraft (r.draft around.environment license modeline)) around.refusals
        ⟨s, [.noted (.templateLoaded license.length)]⟩ = .ok tally g ∧
      execute around s arguments = present around verbose (.ok tally g) := by
  rw [execute_of_applied asked] at exit ⊢
  by_cases null : '\x00' ∈ r.root
  · rw [if_pos null] at exit
    cases exit
  rw [if_neg null] at exit ⊢
  cases check : checkRoot s r.root with
  | error e =>
    rw [check] at exit
    cases exit
  | ok =>
  rw [check] at exit
  dsimp only [EStateM.run] at exit ⊢
  unfold apply at exit ⊢
  rw [Job.bind_apply] at exit ⊢
  cases loaded : r.config around.environment ⟨s, []⟩ with
  | error fault g =>
    rw [loaded] at exit
    cases fault <;> cases exit
  | ok c g =>
  rw [loaded] at exit
  obtain ⟨license, modeline, finds, rfl, rfl⟩ := Request.config_eq_ok_iff.1 loaded
  dsimp only [List.nil_append] at exit ⊢
  cases ran : run (.ofDraft (r.draft around.environment license modeline)) around.refusals
      ⟨s, [.noted (.templateLoaded license.length)]⟩ with
  | error fault g =>
    rw [ran] at exit
    cases fault <;> cases exit
  | ok tally g => exact ⟨null, rfl, license, modeline, tally, g, finds, ran, rfl⟩

theorem checkRoot_eq_ok_iff {root : Text} :
    checkRoot s root = .ok () ↔ root ≠ [] ∧ Utf8.size root < pathLimit ∧
      ∃ place, s.follow false (.ofText root) = .ok place ∧
        ∀ contents, s.get? place ≠ some (.file contents) := by
  unfold checkRoot locateText refuseLong
  by_cases empty : root = []
  · simp [empty, bind, Except.bind, throw, throwThe, MonadExceptOf.throw]
  by_cases fits : Utf8.size root < pathLimit
  · cases found : s.follow false (.ofText root) with
    | error cause => simp [empty, fits, bind, Except.bind]
    | ok place =>
      simp only [empty, fits, bind, Except.bind]
      cases held : s.get? place with
      | none => simp [empty, held]
      | some node => cases node <;> simp [empty, held]
  · simp [empty, fits, bind, Except.bind]

theorem checkRoot_later {s' : Store} (later : Later s s') (tree : s.IsTree)
    (here : s.IsDirectory s.base) {root : Text} (check : checkRoot s root = .ok ()) :
    checkRoot s' root = .ok () := by
  rw [checkRoot_eq_ok_iff] at check ⊢
  obtain ⟨given, fits, place, found, solid⟩ := check
  obtain ⟨found', solid'⟩ := later.follow tree here found solid
  exact ⟨given, fits, place, found', solid'⟩

theorem finds_later {s' : Store} {env : Environment} {license modeline : Text} (later : Later s s')
    (tree : s.IsTree) (here : s.IsDirectory s.base) (finds : r.Finds env s license modeline)
    (header : s'.read (r.headerPath env) = s.read (r.headerPath env))
    (opens : r.modelineFile env ≠ [] →
      ∃ contents, s'.read (.ofText (r.modelineFile env)) = .ok contents) :
    ∃ modeline', r.Finds env s' license modeline' := by
  obtain ⟨plain, read⟩ := finds.license
  have license' := header.trans read
  have modeline' := finds.modeline
  by_cases none : r.modelineFile env = []
  · exact ⟨[], ⟨plain, license'⟩, by rw [if_pos none]⟩
  · rw [if_neg none] at modeline'
    obtain ⟨plain', read'⟩ := modeline'
    obtain ⟨contents, read''⟩ := opens none
    obtain ⟨more, rfl⟩ := later.read tree here read' read''
    rw [← Utf8.encode_append] at read''
    exact ⟨more ++ modeline, ⟨plain, license'⟩, by rw [if_neg none]; exact ⟨plain', read''⟩⟩

structure FindsInOrder (s : Store) (result : Result) : Prop where
  exit : result.exit = 0
  fault : result.fault = none
  store : result.store = s
  outcomes : ∀ o ∈ result.journal.outcomes, o.status = .ok ∧ o.failure = none
  stdout : result.stdout = result.journal.outcomes.map Report.outcomeLine ++
    ["0 files changed, " ++ Text.decimal result.journal.outcomes.length ++ " files ok."]

theorem execute_of_tidy {license modeline : Text}
    (asked : applied? around.environment arguments = some (verbose, r)) (plain : '\x00' ∉ r.root)
    (check : checkRoot s r.root = .ok ()) (finds : r.Finds around.environment s license modeline)
    (tidy : Tidy s (.ofDraft (r.draft around.environment license modeline))) :
    FindsInOrder s (execute around s arguments) := by
  obtain ⟨outcomes, g, ran, same, reported, fine⟩ :=
    tidy.run around.refusals [.noted (.templateLoaded license.length)]
  have reported : g.journal.outcomes = outcomes := reported
  have applied : apply around r ⟨s, []⟩ = .ok { ok := outcomes.length } g := by
    have loaded : r.config around.environment ⟨s, []⟩ =
        .ok (.ofDraft (r.draft around.environment license modeline))
          ⟨s, [.noted (.templateLoaded license.length)]⟩ :=
      Request.config_eq_ok_iff.2 ⟨license, modeline, finds, rfl, rfl⟩
    unfold apply
    rw [Job.bind_apply, loaded]
    exact ran
  rw [execute_of_applied asked, if_neg plain, check]
  dsimp only [EStateM.run]
  rw [applied]
  refine ⟨rfl, rfl, same, ?_, ?_⟩
  · intro o member
    rw [← reported] at fine
    exact fine o member
  · rw [← reported, present, Report.closing, Tally.summary_of_fine]
    rfl

/-- After a call without failure the same call finds nothing to do, provided that the header template
reads as before and the modeline template can still be opened. -/
theorem execute_again {around' : Surroundings} (tree : s.IsTree) (plain : s.NoTemporaryLink)
    (here : s.IsDirectory s.base)
    (asked : applied? around.environment arguments = some (verbose, r)) (real : r.dryRun = false)
    (exit : (execute around s arguments).exit = 0)
    (clean : ∀ o ∈ (execute around s arguments).journal.outcomes, o.failure = none)
    (header : (execute around s arguments).store.read (r.headerPath around.environment) =
      s.read (r.headerPath around.environment))
    (opens : r.modelineFile around.environment ≠ [] → ∃ contents,
      (execute around s arguments).store.read (.ofText (r.modelineFile around.environment)) =
        .ok contents)
    (same : around'.environment = around.environment) :
    FindsInOrder (execute around s arguments).store
      (execute around' (execute around s arguments).store arguments) := by
  obtain ⟨null, check, license, modeline, tally, g, finds, ran, shown⟩ :=
    execute_of_exit asked exit
  rw [shown] at clean header opens ⊢
  change ∀ o ∈ g.journal.outcomes, o.failure = none at clean
  change FindsInOrder g.store (execute around' g.store arguments)
  have noFailure : tally.failures = [] := by
    obtain ⟨outcomes, reported, rfl⟩ := run_reports ran
    have reported : g.journal.outcomes = outcomes := reported
    rw [Tally.ofOutcomes_eq, ← reported]
    refine List.filter_eq_nil_iff.2 fun o member => ?_
    simp [clean o member]
  -- tidy for the configuration of the first call, which is not that of the second if the modeline
  -- template has been rewritten
  obtain ⟨later, tidy⟩ := run_leaves_tidy tree plain real ran noFailure
  obtain ⟨modeline', finds'⟩ := finds_later later tree here finds header opens
  rw [← same] at asked finds' tidy
  exact execute_of_tidy asked null (checkRoot_later later tree here check) finds'
    (tidy.noStricter (noStricter_of_draft r _ license modeline modeline'))

end Call

/-- The modeline template gets the header, and itself, in front of it. -/
theorem execute_again_with_rewritten_modeline :
    let s := twoFiles ⟨"h.h", by decide⟩ ⟨"m.rb", by decide⟩ (Utf8.encode "// L\n")
      (Utf8.encode "// M\n")
    let arguments : List Text := ["apply", "--header", "h.h", "--modeline", "m.rb"]
    let first := execute {} s arguments
    first.journal.outcomes = [⟨"h.h", .ok, none⟩, ⟨"m.rb", .updated, none⟩] ∧
      FindsInOrder first.store (execute {} first.store arguments) := by
  intro s arguments first
  have reported : first.journal.outcomes = [⟨"h.h", .ok, none⟩, ⟨"m.rb", .updated, none⟩] := by
    decide +kernel
  have asked : applied? {} arguments =
      some (false, { header := some "h.h", modeline := some "m.rb" }) := by decide +kernel
  have exit : first.exit = 0 := by decide +kernel
  have header : first.store.read (.ofText "h.h") = s.read (.ofText "h.h") := by decide +kernel
  have opens : first.store.read (.ofText "m.rb") =
      .ok (Utf8.encode "# L\n# M\n// M\n") := by decide +kernel
  refine ⟨reported, execute_again (isTree_of_nodes (by decide)) (noTemporaryLink_of_nodes (by decide))
    s.root_isDirectory asked rfl exit ?_ header (fun _ => ⟨_, opens⟩) rfl⟩
  rw [show (execute {} s arguments).journal.outcomes = _ from reported]
  decide

/-- A header template that is a source file itself gets its header, and then it is another one. -/
theorem execute_again_with_rewritten_header :
    let s : Store := ⟨[], [([⟨"h.rb", by decide⟩], .file (Utf8.encode "// L\n"))]⟩
    let arguments : List Text := ["apply", "--header", "h.rb"]
    let first := execute {} s arguments
    let second := execute {} first.store arguments
    s.IsTree ∧ (∀ place target, s.get? place ≠ some (.link target)) ∧
      applied? {} arguments = some (false, { header := some "h.rb" }) ∧ first.exit = 0 ∧
      (∀ o ∈ first.journal.outcomes, o.failure = none) ∧
      second.journal.outcomes = [⟨"h.rb", .updated, none⟩] ∧ second.store ≠ first.store := by
  intro s arguments first second
  refine ⟨isTree_of_nodes (by decide), noLinks_of_nodes (by decide), ?_⟩
  decide +kernel

end CommandLine

end LicenseHeaders
