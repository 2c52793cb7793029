import LicenseHeaders.Proofs.LaterStores
import LicenseHeaders.Proofs.Visit

/-!
A run after a run. An entry is quiet if a walk that comes to it now would go on without any change:
its file has the license or is exempt, or no header is for it, or it leads nowhere. Entries stay
quiet while other files get their headers, and a run without failure leaves every entry quiet that
it has come to. So the next run has nothing left to do.
-/
namespace LicenseHeaders

namespace Tally

theorem foldl_record (t : Tally) (outcomes : List Outcome) :
    outcomes.foldl record t =
      { ok := t.ok + outcomes.countP (·.status = .ok)
        modified := t.modified + outcomes.countP (·.status ≠ .ok)
        modifiedFiles := t.modifiedFiles ++ (outcomes.filter (·.status ≠ .ok)).map (·.path)
        failures := t.failures ++ outcomes.filter (·.failure.isSome) } := by
  induction outcomes generalizing t with
  | nil => simp
  | cons o rest ih =>
    rw [List.foldl_cons, ih]
    by_cases fine : o.status = .ok <;> cases failed : o.failure <;>
      simp [record, fine, failed] <;> omega

theorem ofOutcomes_eq (outcomes : List Outcome) :
    ofOutcomes outcomes =
      { ok := outcomes.countP (·.status = .ok)
        modified := outcomes.countP (·.status ≠ .ok)
        modifiedFiles := (outcomes.filter (·.status ≠ .ok)).map (·.path)
        failures := outcomes.filter (·.failure.isSome) } := by
  have counted := foldl_record {} outcomes
  simpa [ofOutcomes] using counted

theorem failures_eq_nil {outcomes : List Outcome} (clean : (ofOutcomes outcomes).failures = []) :
    ∀ o ∈ outcomes, o.failure = none := by
  rw [ofOutcomes_eq] at clean
  intro o member
  have whole := List.filter_eq_nil_iff.1 clean o member
  simpa using whole

theorem of_fine {outcomes : List Outcome} (fine : ∀ o ∈ outcomes, o.status = .ok ∧ o.failure = none) :
    ofOutcomes outcomes = { ok := outcomes.length } := by
  have counted : outcomes.countP (·.status = .ok) = outcomes.length := by
    rw [List.countP_eq_length]
    intro o member
    simp [(fine o member).1]
  have unmodified : outcomes.filter (·.status ≠ .ok) = [] := by
    rw [List.filter_eq_nil_iff]
    intro o member
    simp [(fine o member).1]
  have clean : outcomes.filter (·.failure.isSome) = [] := by
    rw [List.filter_eq_nil_iff]
    intro o member
    simp [(fine o member).2]
  rw [ofOutcomes_eq, counted, clean, List.countP_eq_length_filter, unmodified]
  rfl

end Tally

namespace Store

theorem kindAt_of_locate {s : Store} {p : Path} {place : Location} {node : Node}
    (found : s.locate p = .ok place) (held : s.get? place = some node) :
    s.kindAt p = .ok node.kind := by
  simp [kindAt, found, held, bind, Except.bind, pure, Except.pure]

theorem kindAt_eq_ok {s : Store} {p : Path} {kind : Kind} (h : s.kindAt p = .ok kind) :
    ∃ place node, s.locate p = .ok place ∧ s.get? place = some node ∧ node.kind = kind := by
  cases found : s.locate p with
  | error cause => simp [kindAt, found, bind, Except.bind] at h
  | ok place =>
    cases held : s.get? place with
    | none => simp [kindAt, found, held, bind, Except.bind, throw, throwThe, MonadExceptOf.throw] at h
    | some node =>
      rw [kindAt_of_locate found held] at h
      exact ⟨place, node, rfl, held, Except.ok.inj h⟩

theorem kindAt_of_error {s : Store} {p : Path} {cause : Cause} (lost : s.locate p = .error cause) :
    s.kindAt p = .error cause := by
  simp [kindAt, lost, bind, Except.bind]

theorem Reaches.locate_file {s : Store} {dir : Path} {spent : Nat} {place : Location} {name : Name}
    {contents : Bytes} (reached : Reaches s dir spent place)
    (file : s.get? (place ++ [name]) = some (.file contents)) :
    s.locate (dir.child name.text) =
      if Fits (dir.child name.text) then .ok (place ++ [name]) else .error .nameTooLong := by
  rw [locate_eq, reached.follow_name, file]

end Store

namespace Insertion
open Store Traversal

variable {s s' : Store} {c : Config} {spent : Nat} {home names : Location} {name : Name}

/-- If a header is for the file, it is not needed. -/
def Calm (s : Store) (c : Config) (names : Location) : Prop :=
  ∀ header, c.eligible? (relative names) = some header →
    '\x00' ∉ (c.root.below names).toText ∧ ∃ contents,
      s.read (c.root.below names) = .ok contents ∧
        c.needsHeader (relative names) (.ofBytes contents) header = false

/-- The walk goes on from the entry without a fault and without a change. -/
def Quiet (s : Store) (c : Config) (home names : Location) : Prop :=
  match s.get? (home ++ names) with
  | none => True
  | some .directory => c.excludes (relative names) = false →
    Fits (c.root.below names) ∧ '\x00' ∉ (c.root.below names).toText
  | some (.file _) => Calm s c names
  | some (.link _) =>
    match s.kindAt (c.root.below names) with
    | .ok .file => Calm s c names
    | .ok _ => True
    | .error cause => cause = .notFound

section Entry

variable {contents : Bytes} {target : Text}

theorem quiet_of_missing (gone : s.get? (home ++ names ++ [name]) = none) :
    Quiet s c home (names ++ [name]) := by
  unfold Quiet
  rw [← List.append_assoc, gone]
  trivial

theorem quiet_directory (inside : s.IsDirectory (home ++ names ++ [name])) :
    Quiet s c home (names ++ [name]) ↔ (c.excludes (relative (names ++ [name])) = false →
      Fits (c.root.below (names ++ [name])) ∧ '\x00' ∉ (c.root.below (names ++ [name])).toText) := by
  have held : s.get? (home ++ names ++ [name]) = some .directory := inside
  unfold Quiet
  rw [← List.append_assoc, held]

theorem quiet_file (file : s.get? (home ++ names ++ [name]) = some (.file contents)) :
    Quiet s c home (names ++ [name]) ↔ Calm s c (names ++ [name]) := by
  unfold Quiet
  rw [← List.append_assoc, file]

theorem quiet_link (link : s.get? (home ++ names ++ [name]) = some (.link target)) :
    Quiet s c home (names ++ [name]) ↔
      (s.kindAt (c.root.below (names ++ [name])) = .ok .file → Calm s c (names ++ [name])) ∧
      ∀ cause, s.kindAt (c.root.below (names ++ [name])) = .error cause → cause = .notFound := by
  unfold Quiet
  rw [← List.append_assoc, link]
  dsimp only
  cases s.kindAt (c.root.below (names ++ [name])) with
  | error cause => simp
  | ok kind => cases kind <;> simp

theorem quiet_of_kindAt (arrived : Reaches s (c.root.below names) spent (home ++ names))
    (solid : ¬ s.IsDirectory (home ++ names ++ [name]))
    (calm : s.kindAt (c.root.below (names ++ [name])) = .ok .file → Calm s c (names ++ [name]))
    (fault : ∀ cause, s.kindAt (c.root.below (names ++ [name])) = .error cause → cause = .notFound) :
    Quiet s c home (names ++ [name]) := by
  cases held : s.get? (home ++ names ++ [name]) with
  | none => exact quiet_of_missing held
  | some node =>
  cases node with
  | directory => exact absurd held solid
  | link target => exact (quiet_link held).2 ⟨calm, fault⟩
  | file contents =>
    have located := arrived.locate_file held
    rw [← Path.below_concat] at located
    split at located
    · exact (quiet_file held).2 (calm (kindAt_of_locate located held))
    · have cause := fault _ (kindAt_of_error located)
      cases cause

end Entry

theorem calm_of_ineligible (none : c.eligible? (relative names) = none) : Calm s c names := by
  intro header eligible
  rw [none] at eligible
  cases eligible

theorem calm_of_eligible {header : Header} {contents : Bytes}
    (eligible : c.eligible? (relative names) = some header)
    (plain : '\x00' ∉ (c.root.below names).toText)
    (read : s.read (c.root.below names) = .ok contents)
    (fine : c.needsHeader (relative names) (.ofBytes contents) header = false) : Calm s c names := by
  intro header' eligible'
  rw [eligible] at eligible'
  cases eligible'
  exact ⟨plain, contents, read, fine⟩

theorem Calm.ages (calm : Calm s c names)
    (ages : Ages s s' (s.locate (c.root.below names)) (s'.locate (c.root.below names)))
    (there : s'.locate (c.root.below names) ≠ .error .notFound) : Calm s' c names := by
  intro header eligible
  obtain ⟨null, contents, read, fine⟩ := calm header eligible
  obtain ⟨_, place, found, file⟩ := read_eq_ok read
  refine ⟨null, ?_⟩
  generalize after : s'.locate (c.root.below names) = result at ages there
  rw [found] at ages
  cases ages with
  | directory inside =>
    rw [IsDirectory, file] at inside
    cases inside
  | @file _ other _ more before held =>
    rw [file] at before
    cases before
    exact ⟨_, read_of_locate after held, Config.needsHeader_behind more fine⟩
  | lost => exact absurd rfl there

section Rewrites

variable {place beside : Location} {header : Text} {contents : Bytes}
variable (quiet : Quiet s c home (names ++ [name]))
variable (h : Rewrites s s' place beside header contents) (tree : s.IsTree)
variable (reached : Reaches s c.root spent home) (down : s.Descends home names)
include quiet h tree reached down

theorem Quiet.rewrites_link {target : Text}
    (held : s'.get? (home ++ names ++ [name]) = some (.link target)) :
    Quiet s' c home (names ++ [name]) := by
  have ages := h.locate_ages tree (reached.below down) name
  rw [← Path.below_concat] at ages
  obtain ⟨calm, fault⟩ := (quiet_link (h.before held (by simp [Node.kind]))).1 quiet
  rw [quiet_link held]
  generalize after : s'.locate (c.root.below (names ++ [name])) = result at ages
  generalize before : s.locate (c.root.below (names ++ [name])) = result' at ages
  cases ages with
  | directory inside =>
    rw [kindAt_of_locate after (h.isDirectory_iff.2 inside)]
    exact ⟨by simp [Node.kind], by simp⟩
  | file held held' =>
    rw [kindAt_of_locate after held']
    refine ⟨fun _ => ?_, by simp⟩
    refine (calm (kindAt_of_locate before held)).ages ?_ (by simp [after])
    rw [before, after]
    exact .file held held'
  | lost | missing =>
    rw [kindAt_of_error after]
    exact ⟨by simp, by simp⟩
  | fault other => exact absurd (fault _ (kindAt_of_error before)) other

theorem Quiet.rewrites_file {old : Bytes}
    (file : s'.get? (home ++ names ++ [name]) = some (.file old)) :
    Quiet s' c home (names ++ [name]) := by
  have arrived := reached.below down
  have ages := h.locate_ages tree arrived name
  have located := (h.reaches arrived).locate_file file
  rw [← Path.below_concat] at ages located
  have there : s'.locate (c.root.below (names ++ [name])) ≠ .error .notFound := by
    rw [located]
    split <;> simp
  rw [quiet_file file]
  refine Calm.ages ?_ ages there
  cases held : s.get? (home ++ names ++ [name]) with
  | none =>
    rw [h.missing held] at file
    cases file
  | some node =>
  cases node with
  | file => exact (quiet_file held).1 quiet
  | directory =>
    have inside := h.isDirectory_iff.2 held
    rw [IsDirectory, file] at inside
    cases inside
  | link target =>
    obtain ⟨calm, fault⟩ := (quiet_link held).1 quiet
    generalize before : s.locate (c.root.below (names ++ [name])) = result at ages
    generalize after : s'.locate (c.root.below (names ++ [name])) = result' at ages there located
    cases ages with
    | file held _ => exact calm (kindAt_of_locate before held)
    | fault other => exact absurd (fault _ (kindAt_of_error before)) other
    | lost | missing => exact absurd rfl there
    | directory inside =>
      split at located
      · cases located
        rw [IsDirectory, held] at inside
        cases inside
      · cases located

theorem Quiet.rewrites : Quiet s' c home (names ++ [name]) := by
  cases held : s'.get? (home ++ names ++ [name]) with
  | none => exact quiet_of_missing held
  | some node =>
  cases node with
  | directory =>
    have before := (quiet_directory (h.isDirectory_iff.1 held)).1 quiet
    exact (quiet_directory held).2 before
  | link target => exact quiet.rewrites_link h tree reached down held
  | file old => exact quiet.rewrites_file h tree reached down held

end Rewrites

theorem Quiet.later (quiet : Quiet s c home (names ++ [name])) (h : Later s s') (tree : s.IsTree)
    (reached : Reaches s c.root spent home) (down : s.Descends home names) :
    Quiet s' c home (names ++ [name]) := by
  induction h with
  | same => exact quiet
  | next first last ih =>
    apply ih.rewrites last (first.isTree tree) (first.reaches reached)
    intro upper before
    exact first.isDirectory_iff.2 (down upper before)

def Listed (s : Store) (c : Config) (home names : Location) : Prop :=
  s.Descends home names ∧ ∀ upper, upper <+: names → upper ≠ [] → c.excludes (relative upper) = false

theorem listed_later (h : Later s s') : Listed s' c home names ↔ Listed s c home names := by
  constructor
  · intro given
    obtain ⟨down, included⟩ := given
    exact ⟨fun upper before => h.isDirectory_iff.1 (down upper before), included⟩
  · intro given
    obtain ⟨down, included⟩ := given
    exact ⟨fun upper before => h.isDirectory_iff.2 (down upper before), included⟩

theorem listed_nil (inside : s.IsDirectory home) : Listed s c home [] := by
  refine ⟨descends_nil.2 inside, ?_⟩
  intro upper before some
  exact absurd (List.prefix_nil.1 before) some

theorem Listed.concat (h : Listed s c home names) (inside : s.IsDirectory (home ++ names ++ [name]))
    (included : c.excludes (relative (names ++ [name])) = false) :
    Listed s c home (names ++ [name]) := by
  refine ⟨descends_concat.2 ⟨h.1, inside⟩, ?_⟩
  intro upper before some
  rcases List.prefix_concat_iff.1 before with rfl | before
  · exact included
  · exact h.2 upper before some

/-- Every entry of every directory that the walk comes to from this one on is quiet. -/
def QuietBelow (s : Store) (c : Config) (home names : Location) : Prop :=
  ∀ more, names <+: more → Listed s c home more → ∀ name, Quiet s c home (more ++ [name])

theorem quietBelow_of_solid (solid : ¬ s.IsDirectory (home ++ names ++ [name])) :
    QuietBelow s c home (names ++ [name]) := by
  intro more under listed
  have inside := listed.1 _ under
  rw [← List.append_assoc] at inside
  exact absurd inside solid

theorem QuietBelow.later (quiet : QuietBelow s c home names) (h : Later s s') (tree : s.IsTree)
    (reached : Reaches s c.root spent home) : QuietBelow s' c home names := by
  intro more under listed name
  have listed' := (listed_later h).1 listed
  exact (quiet more under listed' name).later h tree reached listed'.1

/-- What the first run finds when it comes to a file, and what it needs for going on. -/
structure Sound (s : Store) (c : Config) (spent : Nat) (home : Location) : Prop where
  tree : s.IsTree
  plain : s.NoTemporaryLink
  reached : Reaches s c.root spent home

theorem Sound.later (sound : Sound s c spent home) (h : Later s s') : Sound s' c spent home :=
  ⟨h.isTree sound.tree, h.noTemporaryLink sound.plain, h.reaches sound.reached⟩

structure Passed (before after : Store) (c : Config) (home names : Location) : Prop where
  later : Later before after
  quiet : Quiet after c home names
  below : QuietBelow after c home names

structure Visited (before after : Store) (c : Config) (home names : Location) : Prop where
  later : Later before after
  fits : Fits (c.root.below names)
  plain : '\x00' ∉ (c.root.below names).toText
  below : QuietBelow after c home names

theorem quietBelow_of_entries (later : Later s s')
    (passed : ∀ entry ∈ s.entriesIn (home ++ names), Passed s s' c home (names ++ [entry.name])) :
    QuietBelow s' c home names := by
  intro more under listed name
  obtain ⟨rest, rfl⟩ := under
  cases rest with
  | nil =>
    rw [List.append_nil]
    cases held : s.get? (home ++ names ++ [name]) with
    | none => exact quiet_of_missing (later.missing held)
    | some node => exact (passed ⟨name, node.kind⟩ (mem_entriesIn.2 ⟨node, held, rfl⟩)).quiet
  | cons next rest =>
    have begins : names ++ [next] <+: names ++ next :: rest := ⟨rest, by simp⟩
    have inside := later.isDirectory_iff.1 (listed.1 _ begins)
    rw [← List.append_assoc] at inside
    have entry := passed ⟨next, .directory⟩ (mem_entriesIn.2 ⟨.directory, inside, rfl⟩)
    exact entry.below _ begins listed name

section First

variable {refusals : Refusals} {g g' : Progress}

theorem Sound.rewrites (sound : Sound g.store c spent home) (down : g.store.Descends home names)
    {header : Text} {contents : Bytes}
    (read : g.store.read (c.root.below (names ++ [name])) = .ok contents)
    (ends : Replaced refusals (c.root.below (names ++ [name])) (Utf8.encode header ++ contents) g
      (.ok none g')) :
    ∃ beside, Rewrites g.store g'.store (home ++ names ++ [name]) beside header contents := by
  have arrived := sound.reached.below down
  obtain ⟨fits, _⟩ := read_eq_ok read
  rw [Path.below_concat] at read ends fits
  have opens := arrived.opens read
  have plain : ∀ beside target, Beside (home ++ names ++ [name]) beside →
      g.store.get? beside ≠ some (.link target) := by
    intro beside target given held
    obtain ⟨above, name', longer, text, _, rfl⟩ := given
    exact sound.plain above longer target held ⟨name'.text, text.symm⟩
  obtain ⟨longer, text, vacant, base, _, failed, entries⟩ :=
    ends.entries arrived fits opens.not_isDirectory plain
  have allow := Option.map_eq_none_iff.1 failed.symm
  rw [allow] at entries
  exact ⟨_, opens, ⟨_, _, _, text, rfl, rfl⟩, vacant, base, entries⟩

theorem directory_passed {enter : Path → Text → Job (List (Option Outcome))}
    {outcomes : List (Option Outcome)} (listing : Later s g.store)
    (down : g.store.Descends home names) (inside : s.IsDirectory (home ++ names ++ [name]))
    (entered : g.store.Descends home (names ++ [name]) →
      enter (c.root.below (names ++ [name])) (relative (names ++ [name])) g = .ok outcomes g' →
      Visited g.store g'.store c home (names ++ [name]))
    (ran : visitEntry c.excludes (settle c refusals) enter (c.root.below names) (relative names)
      ⟨name, .directory⟩ g = .ok outcomes g') :
    Passed g.store g'.store c home (names ++ [name]) := by
  have inside := listing.isDirectory_iff.2 inside
  rw [visitEntry_directory] at ran
  split at ran
  · rename_i excluded
    cases ran
    refine ⟨.same, (quiet_directory inside).2 ?_, ?_⟩
    · intro included
      rw [excluded] at included
      cases included
    · intro more under listed
      have included := listed.2 _ under (by simp)
      rw [excluded] at included
      cases included
  · have visited := entered (descends_concat.2 ⟨down, inside⟩) ran
    refine ⟨visited.later, (quiet_directory (visited.later.isDirectory_iff.2 inside)).2 ?_,
      visited.below⟩
    intro _
    exact ⟨visited.fits, visited.plain⟩

variable (real : c.dryRun = false)
include real

theorem settle_calm (sound : Sound g.store c spent home) (down : g.store.Descends home names)
    {now : Option Outcome}
    (ran : settle c refusals (c.root.below (names ++ [name])) (relative (names ++ [name])) g =
      .ok now g')
    (clean : ∀ outcome, now = some outcome → outcome.failure = none) :
    Later g.store g'.store ∧ Calm g'.store c (names ++ [name]) ∧
      (g'.store = g.store ∨
        ∃ contents, g'.store.get? (home ++ names ++ [name]) = some (.file contents)) := by
  unfold settle at ran
  cases eligible : c.eligible? (relative (names ++ [name])) with
  | none =>
    rw [eligible] at ran
    cases ran
    exact ⟨.same, calm_of_ineligible eligible, .inl rfl⟩
  | some header =>
  rw [eligible] at ran
  simp only [Job.bind_apply] at ran
  have ends := processed c refusals (c.root.below (names ++ [name])) (relative (names ++ [name]))
    header g
  generalize process c refusals (c.root.below (names ++ [name])) (relative (names ++ [name])) header
    g = result at ends ran
  cases ends with
  | failed => cases ran
  | @kept contents null read fine =>
    cases ran
    exact ⟨.same, calm_of_eligible eligible null read fine, .inl rfl⟩
  | foreseen _ _ _ dry =>
    rw [real] at dry
    cases dry
  | @updated contents failure g'' null read _ _ ends =>
    cases ran
    obtain rfl : failure = none := clean _ rfl
    obtain ⟨beside, rewrites⟩ := sound.rewrites down read ends
    obtain ⟨fits, _⟩ := read_eq_ok read
    have arrived := rewrites.reaches (sound.reached.below down)
    rw [Path.below_concat] at fits
    have read' := arrived.read_file fits rewrites.at_place
    rw [← Path.below_concat] at read'
    have fine := Config.needsHeader_own c (relative (names ++ [name])) header contents
    exact ⟨.once rewrites, calm_of_eligible eligible null read' fine, .inr ⟨_, rewrites.at_place⟩⟩

section Entry

variable {enter : Path → Text → Job (List (Option Outcome))} {outcomes : List (Option Outcome)}
variable (listing : Later s g.store) (sound : Sound g.store c spent home)
variable (down : g.store.Descends home names)
variable (clean : ∀ outcome, some outcome ∈ outcomes → outcome.failure = none)
include listing sound down clean

theorem file_passed {contents : Bytes}
    (held : s.get? (home ++ names ++ [name]) = some (.file contents))
    (ran : visitEntry c.excludes (settle c refusals) enter (c.root.below names) (relative names)
      ⟨name, .file⟩ g = .ok outcomes g') :
    Passed g.store g'.store c home (names ++ [name]) := by
  obtain ⟨now, settled, rfl⟩ := visitEntry_file_eq_ok ran
  obtain ⟨later, calm, _⟩ := settle_calm real sound down settled (by
    intro outcome is
    exact clean outcome (by simp [is]))
  have vacant := (listing.trans later).file held
  refine ⟨later, ?_, quietBelow_of_solid vacant.not_isDirectory⟩
  rcases vacant with gone | ⟨contents', file⟩
  · exact quiet_of_missing gone
  · exact (quiet_file file).2 calm

theorem link_passed {target : Text}
    (held : s.get? (home ++ names ++ [name]) = some (.link target))
    (ran : visitEntry c.excludes (settle c refusals) enter (c.root.below names) (relative names)
      ⟨name, .link⟩ g = .ok outcomes g') :
    Passed g.store g'.store c home (names ++ [name]) := by
  have arrived := sound.reached.below down
  have solid : ∀ {s'}, Later s s' → ¬ s'.IsDirectory (home ++ names ++ [name]) := by
    intro s' later inside
    have inside := later.isDirectory_iff.1 inside
    rw [IsDirectory, held] at inside
    cases inside
  rcases visitEntry_link_eq_ok ran with ⟨now, found, settled, rfl⟩ | ⟨notFile, fault, _, rfl⟩
  · obtain ⟨later, calm, unchanged⟩ := settle_calm real sound down settled (by
      intro outcome is
      exact clean outcome (by simp [is]))
    refine ⟨later, ?_, quietBelow_of_solid (solid (listing.trans later))⟩
    rcases unchanged with same | ⟨contents, file⟩
    · rw [same] at calm ⊢
      apply quiet_of_kindAt arrived (solid listing) (fun _ => calm)
      intro cause error
      rw [found] at error
      cases error
    · exact (quiet_file file).2 calm
  · have below := quietBelow_of_solid (c := c) (solid listing)
    exact ⟨.same, quiet_of_kindAt arrived (solid listing) (absurd · notFile) fault, below⟩

theorem entry_passed {node : Node} (held : s.get? (home ++ names ++ [name]) = some node)
    (entered : g.store.Descends home (names ++ [name]) →
      enter (c.root.below (names ++ [name])) (relative (names ++ [name])) g = .ok outcomes g' →
      Visited g.store g'.store c home (names ++ [name]))
    (ran : visitEntry c.excludes (settle c refusals) enter (c.root.below names) (relative names)
      ⟨name, node.kind⟩ g = .ok outcomes g') :
    Passed g.store g'.store c home (names ++ [name]) := by
  cases node with
  | directory => exact directory_passed listing down held entered ran
  | file contents => exact file_passed real listing sound down clean held ran
  | link target => exact link_passed real listing sound down clean held ran

end Entry

theorem entries_passed {enter : Path → Text → Job (List (Option Outcome))}
    (entries : List Entry) {outcomes : List (Option Outcome)} (listing : Later s g.store)
    (held : ∀ entry ∈ entries, ∃ node, s.get? (home ++ names ++ [entry.name]) = some node ∧
      entry.kind = node.kind)
    (sound : Sound g.store c spent home) (down : g.store.Descends home names)
    (entered : ∀ name g g' outcomes, Sound g.store c spent home →
      g.store.Descends home (names ++ [name]) →
      enter (c.root.below (names ++ [name])) (relative (names ++ [name])) g = .ok outcomes g' →
      (∀ outcome, some outcome ∈ outcomes → outcome.failure = none) →
      Visited g.store g'.store c home (names ++ [name]))
    (ran : visitEntries c.excludes (settle c refusals) enter (c.root.below names) (relative names)
      entries g = .ok outcomes g')
    (clean : ∀ outcome, some outcome ∈ outcomes → outcome.failure = none) :
    Later g.store g'.store ∧
      ∀ entry ∈ entries, Passed g.store g'.store c home (names ++ [entry.name]) := by
  induction entries generalizing g outcomes with
  | nil =>
    cases ran
    exact ⟨.same, by simp⟩
  | cons entry rest ih =>
    obtain ⟨node, there, kind⟩ := held entry (List.mem_cons_self ..)
    obtain ⟨name, kind'⟩ := entry
    obtain rfl : kind' = node.kind := kind
    obtain ⟨now, between, later, first, second, rfl⟩ := visitEntries_cons_eq_ok ran
    have cleanNow : ∀ outcome, some outcome ∈ now → outcome.failure = none := by
      intro outcome member
      exact clean outcome (List.mem_append_left _ member)
    have passed := entry_passed real listing sound down cleanNow there
      (fun inside ran => entered name g between now sound inside ran cleanNow) first
    have sound' := sound.later passed.later
    have down' : between.store.Descends home names := by
      intro upper before
      exact passed.later.isDirectory_iff.2 (down upper before)
    obtain ⟨later', restPassed⟩ := ih (listing.trans passed.later)
      (fun entry member => held entry (List.mem_cons_of_mem _ member)) sound' down' second
      (fun outcome member => clean outcome (List.mem_append_right _ member))
    refine ⟨passed.later.trans later', ?_⟩
    intro entry member
    rcases List.mem_cons.1 member with rfl | member
    · exact ⟨passed.later.trans later',
        passed.quiet.later later' sound'.tree sound'.reached down',
        passed.below.later later' sound'.tree sound'.reached⟩
    · have rest := restPassed entry member
      exact ⟨passed.later.trans rest.later, rest.quiet, rest.below⟩

theorem visit_quiet (depth : Nat) {outcomes : List (Option Outcome)}
    (sound : Sound g.store c spent home) (down : g.store.Descends home names)
    (ran : visit c.excludes (settle c refusals) depth (c.root.below names) (relative names) g =
      .ok outcomes g')
    (clean : ∀ outcome, some outcome ∈ outcomes → outcome.failure = none) :
    Visited g.store g'.store c home names := by
  induction depth generalizing names g g' outcomes with
  | zero => cases ran
  | succ depth ih =>
    rw [visit_apply] at ran
    generalize listed : Job.list (c.root.below names) g = result at ran
    cases result with
    | error => cases ran
    | ok entries between =>
    have plain : '\x00' ∉ (c.root.below names).toText := by
      intro null
      rw [Job.list_apply, if_pos null] at listed
      cases listed
    obtain ⟨place, located, inside, rfl, rfl⟩ := Job.list_eq_ok listed
    have fits := (leads_of_locate located inside (by simp [Node.kind])).1
    obtain ⟨_, reached⟩ := reaches_of_locate located inside
    obtain ⟨_, rfl⟩ := reached.unique (sound.reached.below down)
    obtain ⟨later, passed⟩ := entries_passed real
      (g := ⟨g.store, g.journal ++ [.listed (home ++ names)]⟩) (g.store.entriesIn (home ++ names))
      .same (fun entry member => mem_entriesIn.1 member) sound down
      (fun name g g' outcomes sound down ran clean => ih sound down ran clean) ran clean
    exact ⟨later, fits, plain, quietBelow_of_entries later passed⟩

end First

/-- A part of the walk has come to its end with the store as it was and all files in order. -/
def Unchanged (s : Store) : EStateM.Result Fault Progress (List (Option Outcome)) → Prop
  | .ok outcomes g => g.store = s ∧
    ∀ outcome, some outcome ∈ outcomes → outcome.status = .ok ∧ outcome.failure = none
  | .error _ _ => False

section Second

variable {refusals : Refusals} {g : Progress}

theorem settle_unchanged (refusals : Refusals) (calm : Calm g.store c names) :
    ∃ now g', settle c refusals (c.root.below names) (relative names) g = .ok now g' ∧
      Unchanged g.store (.ok [now] g') := by
  unfold settle
  cases eligible : c.eligible? (relative names) with
  | none => exact ⟨none, g, rfl, rfl, by simp⟩
  | some header =>
    obtain ⟨null, contents, read, fine⟩ := calm header eligible
    have done : process c refusals (c.root.below names) (relative names) header g =
        .ok { path := relative names, status := .ok } g := by
      unfold process readSource
      simp only [Job.bind_apply, Job.read_apply, null, if_false, read, Job.pure_apply, fine]
      rfl
    simp only [Job.bind_apply, done]
    refine ⟨_, _, rfl, rfl, ?_⟩
    intro outcome member
    cases List.mem_singleton.1 member
    exact ⟨rfl, rfl⟩

theorem visitEntry_unchanged (refusals : Refusals)
    {enter : Path → Text → Job (List (Option Outcome))} {node : Node}
    (held : g.store.get? (home ++ names ++ [name]) = some node)
    (quiet : Quiet g.store c home (names ++ [name]))
    (entered : node = .directory → c.excludes (relative (names ++ [name])) = false →
      Unchanged g.store (enter (c.root.below (names ++ [name])) (relative (names ++ [name])) g)) :
    Unchanged g.store (visitEntry c.excludes (settle c refusals) enter (c.root.below names)
      (relative names) ⟨name, node.kind⟩ g) := by
  cases node with
  | directory =>
    rw [Node.kind, visitEntry_directory]
    split
    · exact ⟨rfl, by simp⟩
    · rename_i included
      exact entered rfl (by simpa using included)
  | file contents =>
    obtain ⟨now, g', ran, unchanged⟩ := settle_unchanged refusals ((quiet_file held).1 quiet)
    rw [Node.kind, visitEntry_file, ran]
    exact unchanged
  | link target =>
    obtain ⟨calm, fault⟩ := (quiet_link held).1 quiet
    rw [Node.kind, visitEntry_link]
    cases found : g.store.kindAt (c.root.below (names ++ [name])) with
    | error cause =>
      obtain rfl := fault cause found
      exact ⟨rfl, by simp⟩
    | ok kind =>
      cases kind with
      | directory | link => exact ⟨rfl, by simp⟩
      | file =>
        obtain ⟨now, g', ran, unchanged⟩ := settle_unchanged refusals (calm found)
        dsimp only
        rw [ran]
        exact unchanged

theorem visitEntries_unchanged {enter : Path → Text → Job (List (Option Outcome))}
    (entries : List Entry)
    (held : ∀ entry ∈ entries, ∃ node, s.get? (home ++ names ++ [entry.name]) = some node ∧
      entry.kind = node.kind)
    (quiet : ∀ name, Quiet s c home (names ++ [name]))
    (entered : ∀ name g, g.store = s → s.IsDirectory (home ++ names ++ [name]) →
      c.excludes (relative (names ++ [name])) = false →
      Unchanged s (enter (c.root.below (names ++ [name])) (relative (names ++ [name])) g))
    (current : g.store = s) :
    Unchanged s (visitEntries c.excludes (settle c refusals) enter (c.root.below names)
      (relative names) entries g) := by
  induction entries generalizing g with
  | nil => exact ⟨current, by simp⟩
  | cons entry rest ih =>
    obtain ⟨node, there, kind⟩ := held entry (List.mem_cons_self ..)
    obtain ⟨name, kind'⟩ := entry
    obtain rfl : kind' = node.kind := kind
    subst current
    have first := visitEntry_unchanged refusals there (quiet name) (by
      intro same included
      subst same
      exact entered name g rfl there included)
    rw [visitEntries_cons_apply]
    generalize visitEntry c.excludes (settle c refusals) enter (c.root.below names)
      (relative names) ⟨name, node.kind⟩ g = result at first ⊢
    cases result with
    | error => exact first.elim
    | ok now between =>
    have second := ih (fun entry member => held entry (List.mem_cons_of_mem _ member)) first.1
    dsimp only
    generalize visitEntries c.excludes (settle c refusals) enter (c.root.below names)
      (relative names) rest between = result at second ⊢
    cases result with
    | error => exact second.elim
    | ok later g' =>
    refine ⟨second.1, ?_⟩
    intro outcome member
    rcases List.mem_append.1 member with early | late
    · exact first.2 outcome early
    · exact second.2 outcome late

theorem visit_unchanged (refusals : Refusals) (depth : Nat) (reached : Reaches s c.root spent home)
    (listed : Listed s c home names) (enough : depth + names.length = s.directoryCount + 1)
    (fits : Fits (c.root.below names)) (null : '\x00' ∉ (c.root.below names).toText)
    (quiet : QuietBelow s c home names) (current : g.store = s) :
    Unchanged s (visit c.excludes (settle c refusals) depth (c.root.below names) (relative names)
      g) := by
  induction depth generalizing names g with
  | zero =>
    have bounded := listed.1.length_le
    omega
  | succ depth ih =>
    subst current
    have arrived := reached.below listed.1
    rw [visit_apply, Job.list_of_locate null (arrived.locate fits) arrived.inside]
    refine visitEntries_unchanged (s := g.store) _ (fun entry member => mem_entriesIn.1 member)
      (quiet names (List.prefix_refl _) listed) ?_ rfl
    intro name g' current inside included
    have listed' : Listed g.store c home (names ++ [name]) := listed.concat inside included
    have here := quiet names (List.prefix_refl _) listed name
    obtain ⟨fits', null'⟩ := (quiet_directory inside).1 here included
    refine ih listed' ?_ fits' null' ?_ current
    · rw [List.length_append, List.length_singleton]
      omega
    · intro more under
      exact quiet more ((List.prefix_append _ _).trans under)

end Second

/-- A run that ends without any failure leaves nothing to do for the same run after it. -/
theorem run_again {s : Store} {c : Config} {refusals : Refusals} {tally : Tally} {g : Progress}
    (tree : s.IsTree) (plain : s.NoTemporaryLink) (real : c.dryRun = false)
    (ran : run c refusals ⟨s, []⟩ = .ok tally g) (clean : tally.failures = [])
    (refusals' : Refusals) (journal : Journal) :
    ∃ tally' g', run c refusals' ⟨g.store, journal⟩ = .ok tally' g' ∧ g'.store = g.store ∧
      tally'.modified = 0 ∧ tally'.modifiedFiles = [] ∧ tally'.failures = [] := by
  obtain ⟨outcomes, between, walked, rfl, same⟩ := run_eq_ok ran
  obtain ⟨spent, home, reached⟩ := reaches_of_visit walked
  rw [Path.below_nil] at reached
  have noFailure : ∀ outcome, some outcome ∈ outcomes → outcome.failure = none := by
    intro outcome member
    exact Tally.failures_eq_nil clean outcome (by simpa using member)
  have first := visit_quiet real _ ⟨tree, plain, reached⟩ (descends_nil.2 reached.inside) walked
    noFailure
  rw [← same] at first
  have listed : Listed g.store c home [] := by
    refine (listed_later first.later).2 ⟨descends_nil.2 reached.inside, ?_⟩
    intro upper before some
    exact absurd (List.prefix_nil.1 before) some
  have second := visit_unchanged refusals' (g := ⟨g.store, journal⟩) (g.store.directoryCount + 1)
    (first.later.reaches reached) listed rfl first.fits first.plain first.below rfl
  rw [run_apply]
  dsimp only
  generalize visit c.excludes (settle c refusals') (g.store.directoryCount + 1) (c.root.below [])
    (relative []) ⟨g.store, journal⟩ = result at second ⊢
  cases result with
  | error => exact second.elim
  | ok outcomes' g₂ =>
  obtain ⟨unchanged, fine⟩ := second
  have allFine : ∀ outcome ∈ outcomes'.filterMap id,
      outcome.status = .ok ∧ outcome.failure = none := by
    intro outcome member
    exact fine outcome (by simpa using member)
  have counted := Tally.of_fine allFine
  refine ⟨_, _, rfl, unchanged, ?_⟩
  rw [counted]
  exact ⟨rfl, rfl, rfl⟩

theorem isTree_of_nodes {s : Store}
    (closed : ∀ entry ∈ s.nodes, entry.2 = .directory → s.IsDirectory entry.1.dropLast) :
    s.IsTree := by
  intro place inside
  by_cases root : place = []
  · subst root
    exact inside
  · exact closed _ (mem_of_get? root inside) rfl

theorem noTemporaryLink_of_nodes {s : Store}
    (plain : ∀ entry ∈ s.nodes, entry.2.kind = .link →
      ∀ name ∈ entry.1.getLast?, ¬ temporaryEnding <:+ name.text) : s.NoTemporaryLink := by
  intro place name target link
  exact plain _ (mem_of_get? (by simp) link) rfl name (by simp)

def linkedFile (file link : Name) : Store where
  base := []
  nodes := [([file], .file [97]), ([link], .link file.text)]

def licenseOnly : Config := .ofDraft { license := "H" }

theorem run_again_linkedFile :
    let s := linkedFile ⟨"a.c", by decide⟩ ⟨"b.c", by decide⟩
    let g := Job.progressOf (run licenseOnly (fun _ => none) ⟨s, []⟩)
    run licenseOnly (fun _ => none) ⟨s, []⟩ = .ok ⟨1, 1, ["a.c"], []⟩ g ∧
      ∃ tally' g', run licenseOnly (fun _ => none) ⟨g.store, []⟩ = .ok tally' g' ∧
        g'.store = g.store ∧ tally'.modified = 0 ∧ tally'.modifiedFiles = [] ∧
        tally'.failures = [] := by
  intro s g
  have ran : run licenseOnly (fun _ => none) ⟨s, []⟩ = .ok ⟨1, 1, ["a.c"], []⟩ g := by
    decide +kernel
  have tree : s.IsTree := isTree_of_nodes (by decide)
  have plain : s.NoTemporaryLink := noTemporaryLink_of_nodes (by decide)
  exact ⟨ran, run_again tree plain (by decide) ran rfl (fun _ => none) []⟩

end Insertion

end LicenseHeaders
