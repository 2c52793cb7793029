import LicenseHeaders.Environment
import LicenseHeaders.Proofs.Decoding
import LicenseHeaders.Proofs.Derivation
import LicenseHeaders.Proofs.Replacement

/-!
Loading a configuration. A template is read if and only if its file can be opened and holds the
bytes of a text, and then it is that text. A file gets the header of the language that owns its
extension.
-/
namespace LicenseHeaders

theorem Template.read_eq_ok_iff {s : Store} {p : Path} {t : Text} :
    Template.read s p = .ok t ↔ '\x00' ∉ p.toText ∧ s.read p = .ok (Utf8.encode t) := by
  unfold Template.read Template.decodeFor
  by_cases null : '\x00' ∈ p.toText
  · simp [null]
  · cases opened : s.read p with
    | error cause => simp [null]
    | ok contents =>
      have exact_ := @Utf8.decode_eq_ok_iff contents t
      cases decoded : Utf8.decode contents <;> simp_all

namespace Request

def headerPath (r : Request) (env : Environment) : Path := .ofText (r.header.getD env.headerFile)

def modelineFile (r : Request) (env : Environment) : Text := r.modeline.getD env.modelineFile

/-- The files that a request takes its templates from hold these texts. -/
structure Finds (r : Request) (env : Environment) (s : Store) (license modeline : Text) : Prop where
  license : '\x00' ∉ (r.headerPath env).toText ∧ s.read (r.headerPath env) = .ok (Utf8.encode license)
  modeline : if r.modelineFile env = [] then modeline = []
    else '\x00' ∉ (Path.ofText (r.modelineFile env)).toText ∧
      s.read (.ofText (r.modelineFile env)) = .ok (Utf8.encode modeline)

theorem modelineText_eq_ok_iff {r : Request} {env : Environment} {s : Store} {modeline : Text} :
    r.modelineText env s = .ok modeline ↔ if r.modelineFile env = [] then modeline = []
      else '\x00' ∉ (Path.ofText (r.modelineFile env)).toText ∧
        s.read (.ofText (r.modelineFile env)) = .ok (Utf8.encode modeline) := by
  unfold modelineText modelineFile
  dsimp only
  split
  · rw [Except.ok.injEq]
    exact eq_comm
  · exact Template.read_eq_ok_iff

theorem config_apply (r : Request) (env : Environment) (g : Progress) :
    r.config env g =
      match Template.read g.store (r.headerPath env) with
      | .error fault => .error fault g
      | .ok license =>
        match r.modelineText env g.store with
        | .error fault => .error fault g
        | .ok modeline => .ok (.ofDraft (r.draft env license modeline))
          { g with journal := g.journal ++ [.noted (.templateLoaded license.length)] } := by
  unfold config
  rw [headerPath]
  simp only [Job.bind_apply, Job.store_apply]
  cases Template.read g.store (.ofText (r.header.getD env.headerFile)) with
  | error fault => rfl
  | ok license =>
    simp only [config.ofExcept, Job.pure_apply]
    cases r.modelineText env g.store with
    | error fault => rfl
    | ok modeline => rfl

theorem config_eq_ok_iff {r : Request} {env : Environment} {g g' : Progress} {c : Config} :
    r.config env g = .ok c g' ↔ ∃ license modeline, r.Finds env g.store license modeline ∧
      c = .ofDraft (r.draft env license modeline) ∧
      g' = { g with journal := g.journal ++ [.noted (.templateLoaded license.length)] } := by
  rw [config_apply]
  constructor
  · intro loaded
    cases read : Template.read g.store (r.headerPath env) with
    | error fault =>
      rw [read] at loaded
      cases loaded
    | ok license =>
      cases read' : r.modelineText env g.store with
      | error fault =>
        rw [read, read'] at loaded
        cases loaded
      | ok modeline =>
        rw [read, read'] at loaded
        cases loaded
        exact ⟨license, modeline,
          ⟨Template.read_eq_ok_iff.1 read, modelineText_eq_ok_iff.1 read'⟩, rfl, rfl⟩
  · intro given
    obtain ⟨license, modeline, finds, rfl, rfl⟩ := given
    rw [Template.read_eq_ok_iff.2 finds.license, modelineText_eq_ok_iff.2 finds.modeline]

end Request

theorem Config.registry_of_none {d : Draft} (derived : d.registry = none) :
    (Config.ofDraft d).registry = .derive d.license d.modeline Language.all := by
  rw [ofDraft, derived]
  rfl

theorem Config.header?_of_draft_eq_some_iff {d : Draft} (derived : d.registry = none) {rel : Text}
    {header : Header} :
    (Config.ofDraft d).header? rel = some header ↔ ∃ l : Language,
      Relative.extension rel ∈ l.extensions ∧ header = Registry.headerFor d.license d.modeline l := by
  rw [header?, registry_of_none derived, Registry.get?_derive_eq_some_iff]
  simp only [Language.mem_all, true_and]

theorem Config.header?_of_draft {d : Draft} (derived : d.registry = none) {l : Language} {rel : Text}
    (own : Relative.extension rel ∈ l.extensions) :
    (Config.ofDraft d).header? rel = some (Registry.headerFor d.license d.modeline l) :=
  (header?_of_draft_eq_some_iff derived).2 ⟨l, own, rfl⟩

end LicenseHeaders
