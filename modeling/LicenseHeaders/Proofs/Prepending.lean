import LicenseHeaders.Proofs.Loading
import LicenseHeaders.Proofs.Marking
import LicenseHeaders.Proofs.ReadAfterReplace
import LicenseHeaders.Proofs.WalkAsBatch

/-!
The bytes of a file that has got its header. They are those of the two templates, with the marker of
its language, and behind them what was there before, whatever that was. Nothing of it is ever
decoded and written in another form.
-/
namespace LicenseHeaders

namespace Store

theorem slot_eq_ok {s : Store} {p : Path} {entry : Location} (h : s.slot p = .ok entry) :
    ∃ dir : Path, ∃ name : Name, ∃ spent place, p = dir.child name.text ∧ entry = place ++ [name] ∧
      Fits p ∧ Reaches s dir spent place := by
  unfold slot at h
  cases last : p.parts.getLast? with
  | none =>
    cases found : s.directoryOf p with
    | error cause => simp [found, bind, Except.bind] at h
    | ok place => simp [found, lastName, last, bind, Except.bind] at h
  | some part =>
    have eq := Path.eq_child last
    generalize ({ p with parts := p.parts.dropLast } : Path) = dir at eq
    subst eq
    cases found : s.directoryOf (dir.child part) with
    | error cause => simp [found, bind, Except.bind] at h
    | ok place =>
      obtain ⟨fits, spent, reaches⟩ := directoryOf_child.1 found
      simp only [found, bind, Except.bind, lastName_child] at h
      cases step : Step.ofPart part with
      | stay | up => simp [step] at h
      | into part' =>
        simp only [step, entryAt] at h
        cases named : Name.ofText? part' with
        | none => simp [named] at h
        | some name =>
          rw [← Name.text_of_ofText? named] at step
          rw [named] at h
          cases h
          rw [Step.text_of_ofPart step] at fits ⊢
          exact ⟨dir, name, spent, place, rfl, rfl, fits, reaches⟩

end Store

theorem Registry.encode_headerFor (license modeline : Text) (l : Language) :
    Utf8.encode (headerFor license modeline l).text =
      l.commentBytes (Utf8.encode license) ++ l.commentBytes (Utf8.encode modeline) := by
  rw [headerFor, Header.text, Utf8.encode_append, Language.encode_comment, Language.encode_comment]

theorem Config.needsHeader_of_absent {c : Config} {l : Language} {rel license modeline : Text}
    {contents : Bytes} (absent : ¬ l.commentBytes (Utf8.encode license) <:+: contents)
    (subject : c.exempts (Relative.directory rel) rel = false) :
    c.needsHeader rel (.ofBytes contents) (Registry.headerFor license modeline l) = true := by
  rw [needsHeader_ofBytes, Registry.headerFor, Language.encode_comment]
  exact ⟨absent, subject⟩

namespace Insertion
open Store

/-- A path denotes a file in its own right, and nothing but a file has its temporary name. -/
structure IsFileAt (s : Store) (p : Path) (entry : Location) (contents : Bytes) : Prop where
  slot : s.slot p = .ok entry
  file : s.get? entry = some (.file contents)
  room : ∀ beside, Beside entry beside → s.Vacant beside

theorem IsFileAt.read {s : Store} {p : Path} {entry : Location} {contents : Bytes}
    (h : IsFileAt s p entry contents) : s.read p = .ok contents := by
  obtain ⟨dir, name, spent, place, rfl, rfl, fits, reaches⟩ := slot_eq_ok h.slot
  exact reaches.read_file fits h.file

theorem IsFileAt.replaced {refusals : Refusals} {p : Path} {entry : Location}
    {contents bytes : Bytes} {g g' : Progress} (h : IsFileAt g.store p entry contents)
    (ends : Replaced refusals p bytes g (.ok none g')) : IsFileAt g'.store p entry bytes := by
  have opens := opens_file h.file
  obtain ⟨dir, name, spent, place, rfl, rfl, fits, reaches⟩ := slot_eq_ok h.slot
  have plain : ∀ beside target, Beside (place ++ [name]) beside →
      g.store.get? beside ≠ some (.link target) :=
    fun beside target there => (h.room beside there).not_link target
  obtain ⟨longer, text, vacant, base, _, failed, entries⟩ :=
    ends.entries reaches fits opens.not_isDirectory plain
  rw [Option.map_eq_none_iff.1 failed.symm] at entries
  have there : Beside (place ++ [name]) (place ++ [longer]) := ⟨place, name, longer, text, rfl, rfl⟩
  have same : SameDirectories g.store g'.store := by
    intro other
    rw [entries]
    split
    · rename_i own
      exact .inr (.inr ⟨contents, own ▸ opens⟩)
    · split
      · rename_i temporary
        exact .inr (temporary ▸ vacant.missing_or_opens)
      · exact .inl rfl
  refine ⟨slot_child (reaches.same same base) fits, ?_, ?_⟩
  · rw [entries, if_pos rfl]
  · intro beside besides
    rw [besides.unique there, Vacant, entries, if_neg there.ne.symm, if_pos rfl]
    exact .inl rfl

structure Prepended (l : Language) (rel license modeline : Text) (contents : Bytes) (p : Path)
    (entry : Location) (outcome : Outcome) (g : Progress) : Prop where
  outcome : outcome = { path := rel, status := .updated }
  bytes : g.store.get? entry = some (.file
    (l.commentBytes (Utf8.encode license) ++ l.commentBytes (Utf8.encode modeline) ++ contents))
  verbatim : l = .cFamily → g.store.get? entry =
    some (.file (Utf8.encode license ++ Utf8.encode modeline ++ contents))
  text : readSource p g = .ok (SourceText.ofText (l.comment license) ++
    SourceText.ofText (l.comment modeline) ++ SourceText.ofBytes contents) g

/-- Once a file is reported as updated without failure, its bytes are the two templates in the comments
of its language and what it held before, and it is read as that. -/
theorem process_prepends (r : Request) (env : Environment) (s : Store) (license modeline : Text)
    (real : r.dryRun = false) (finds : r.Finds env s license modeline) :
    ∃ c, r.config env ⟨s, []⟩ = .ok c ⟨s, [.noted (.templateLoaded license.length)]⟩ ∧
      ∀ (l : Language) (rel : Text), Relative.extension rel ∈ l.extensions →
        c.header? rel = some (Registry.headerFor license modeline l) ∧
        ∀ (refusals : Refusals) (p : Path) (entry : Location) (contents : Bytes) (g g' : Progress)
          (outcome : Outcome), IsFileAt g.store p entry contents →
          c.exempts (Relative.directory rel) rel = false →
          ¬ l.commentBytes (Utf8.encode license) <:+: contents →
          process c refusals p rel (Registry.headerFor license modeline l) g = .ok outcome g' →
          outcome.failure = none →
          Prepended l rel license modeline contents p entry outcome g' := by
  refine ⟨_, Request.config_eq_ok_iff.2 ⟨license, modeline, finds, rfl, rfl⟩, ?_⟩
  intro l rel own
  refine ⟨Config.header?_of_draft rfl own, ?_⟩
  intro refusals p entry contents g g' outcome file subject absent ran clean
  have lacks : (Config.ofDraft (r.draft env license modeline)).needsHeader rel (.ofBytes contents)
      (Registry.headerFor license modeline l) = true := Config.needsHeader_of_absent absent subject
  have ends := processed (.ofDraft (r.draft env license modeline)) refusals p rel
    (Registry.headerFor license modeline l) g
  rw [ran] at ends
  cases ends with
  | kept _ read fine =>
    rw [file.read] at read
    cases read
    rw [lacks] at fine
    cases fine
  | foreseen _ _ _ dry =>
    have dry : r.dryRun = true := dry
    rw [real] at dry
    cases dry
  | @updated _ failure between plain read _ _ ends =>
    rw [file.read] at read
    cases read
    obtain rfl : failure = none := clean
    have left := file.replaced ends
    have bytes := Registry.encode_headerFor license modeline l
    refine ⟨rfl, ?_, ?_, ?_⟩
    · rw [← bytes]
      exact left.file
    · intro same
      subst same
      rw [← Language.commentBytes_cFamily license, ← Language.commentBytes_cFamily modeline, ← bytes]
      exact left.file
    · unfold readSource
      rw [Job.bind_apply, Job.read_apply, if_neg plain, left.read]
      dsimp only
      rw [Job.pure_apply, SourceText.ofBytes_encode_append, Registry.headerFor, Header.text,
        SourceText.ofText_append]

theorem vacant_of_nodes {s : Store} (files : ∀ entry ∈ s.nodes, entry.2.kind = .file)
    {place : Location} (below : place ≠ []) : s.Vacant place := by
  cases held : s.get? place with
  | none => exact .inl held
  | some node =>
    have kind := files _ (mem_of_get? below held)
    cases node with
    | file contents => exact .inr ⟨contents, held⟩
    | directory | link => cases kind

/-- The file starts with bytes that can only go on with a sequence. -/
theorem process_prepends_to_raw_bytes :
    let s := twoFiles ⟨"h", by decide⟩ ⟨"a.rb", by decide⟩ (Utf8.encode "// H\n") [0x82, 0xac]
    let c := Config.ofDraft (({ header := some "h" } : Request).draft {} "// H\n" [])
    let result := process c (fun _ => none) (.ofText "a.rb") "a.rb"
      (Registry.headerFor "// H\n" [] .ruby) ⟨s, []⟩
    result = .ok { path := "a.rb", status := .updated } (Job.progressOf result) ∧
      Prepended .ruby "a.rb" "// H\n" [] [0x82, 0xac] (.ofText "a.rb") [⟨"a.rb", by decide⟩]
        { path := "a.rb", status := .updated } (Job.progressOf result) := by
  intro s c result
  have finds : ({ header := some "h" } : Request).Finds {} s "// H\n" [] :=
    ⟨by decide +kernel, by decide +kernel⟩
  have file : IsFileAt s (.ofText "a.rb") [⟨"a.rb", by decide⟩] [0x82, 0xac] := by
    refine ⟨by decide +kernel, by decide, ?_⟩
    intro beside there
    obtain ⟨_, _, _, _, _, rfl⟩ := there
    exact vacant_of_nodes (by decide) (by simp)
  have ran : result = .ok { path := "a.rb", status := .updated } (Job.progressOf result) := by
    decide +kernel
  obtain ⟨c', loaded, all⟩ := process_prepends { header := some "h" } {} s "// H\n" [] rfl finds
  have known : ({ header := some "h" } : Request).config {} ⟨s, []⟩ =
      .ok c ⟨s, [.noted (.templateLoaded 5)]⟩ := by decide +kernel
  rw [known] at loaded
  cases loaded
  exact ⟨ran, (all .ruby "a.rb" (by decide)).2 (fun _ => none) (.ofText "a.rb") _ _ ⟨s, []⟩ _ _
    file (by decide) (by decide +kernel) ran rfl⟩

end Insertion

end LicenseHeaders
