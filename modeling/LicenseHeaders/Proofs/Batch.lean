import LicenseHeaders.Proofs.Update
import LicenseHeaders.Proofs.Visit

/-!
A run as a batch. The candidates of a store are all files that the rules allow, and the outcome of
each follows from what it holds. A run looks at its files one by one while it changes the store; on
a store without links it comes to the same as if all had been looked at before.
-/
namespace LicenseHeaders.Insertion
open Store

/-- The order of the walk compares name by name on the way down. -/
def Before (a b : Location) : Prop := a.map Name.text < b.map Name.text

instance (a b : Location) : Decidable (Before a b) := inferInstanceAs (Decidable (_ < _))

theorem Before.append {a b : Location} (h : Before a b) (more : Location) : Before a (b ++ more) := by
  unfold Before
  rw [List.map_append]
  exact List.Lex.append_right _ _ h

theorem Before.not_begins {a b : Location} (h : Before a b) : ¬ b <+: a := by
  intro given
  obtain ⟨more, rfl⟩ := given
  unfold Before at h
  rw [List.map_append] at h
  exact List.le_append_left h

theorem before_of_names {x y directory : Location} {a b : Name} (first : directory ++ [a] <+: x)
    (second : directory ++ [b] <+: y) (h : Store.Earlier a b) : Before x y := by
  obtain ⟨rest, rfl⟩ := first
  obtain ⟨rest', rfl⟩ := second
  unfold Before
  simp only [List.map_append, List.map_cons, List.append_assoc, List.singleton_append]
  exact List.append_left_lt (List.Lex.rel h)

structure Candidate where
  names : Location
  place : Location
  contents : Bytes
  header : Header
deriving DecidableEq, Repr

namespace Candidate

def path (c : Config) (x : Candidate) : Path := c.root.below x.names

/-- The file has its license, or is exempt by its own name or that of its directory. -/
def Compliant (c : Config) (x : Candidate) : Prop :=
  occursIn (SourceText.ofText x.header.license) (SourceText.ofBytes x.contents) = true ∨
    c.exempts (Relative.directory (relative x.names)) (relative x.names) = true

instance (c : Config) (x : Candidate) : Decidable (x.Compliant c) :=
  inferInstanceAs (Decidable (_ ∨ _))

def Updated (c : Config) (x : Candidate) : Prop := ¬ x.Compliant c ∧ c.dryRun = false

def rewritten (x : Candidate) : Bytes := Utf8.encode x.header.text ++ x.contents

def failure (c : Config) (refusals : Refusals) (x : Candidate) : Option FailedMove := do
  let refusal ← refusals (x.path c).toText
  let temporary ← (x.path c).beside? temporaryEnding
  return ⟨temporary, x.path c, refusal.error⟩

def outcome (c : Config) (refusals : Refusals) (x : Candidate) : Outcome :=
  if x.Compliant c then { path := relative x.names, status := .ok }
  else if c.dryRun then { path := relative x.names, status := .wouldUpdate }
  else { path := relative x.names, status := .updated, failure := x.failure c refusals }

def Earlier (x y : Candidate) : Prop := Before x.names y.names

instance (x y : Candidate) : Decidable (x.Earlier y) := inferInstanceAs (Decidable (Before _ _))

def UpTo (x y : Candidate) : Prop := ¬ y.Earlier x

instance : Std.Total UpTo where
  total _ _ := not_and_or.1 fun both => lt_asymm both.1 both.2

instance : IsTrans Candidate UpTo where
  trans _ _ _ first second := not_lt.2 (le_trans (not_lt.1 first) (not_lt.1 second))

end Candidate

structure IsCandidate (s : Store) (c : Config) (x : Candidate) : Prop where
  below : ∃ home, s.locate c.root = .ok home ∧ x.place = home ++ x.names ∧
    s.Descends home x.names.dropLast
  named : x.names ≠ []
  file : s.get? x.place = some (.file x.contents)
  header : c.registry.get? (Relative.extension (relative x.names)) = some x.header
  included : ∀ start ∈ c.excluded, ¬ start <+: relative x.names.dropLast

/-- All candidates of a store, in order. -/
structure IsBatch (s : Store) (c : Config) (batch : List Candidate) : Prop where
  complete : ∀ x, x ∈ batch ↔ IsCandidate s c x
  ordered : batch.Pairwise Candidate.Earlier

/-- What a store is after these candidates have been dealt with, and nothing else. -/
structure Settled (s final : Store) (c : Config) (refusals : Refusals) (done : List Candidate) :
    Prop where
  base : final.base = s.base
  replaced : ∀ x ∈ done, x.Updated c → refusals (x.path c).toText = none →
    final.get? x.place = some (.file x.rewritten) ∧
      ∀ other, Beside x.place other → final.get? other = none
  refused : ∀ x ∈ done, x.Updated c → refusals (x.path c).toText ≠ none →
    final.get? x.place = some (.file x.contents) ∧
      ∃ other, Beside x.place other ∧ final.get? other = some (.file x.rewritten)
  vacant : ∀ x ∈ done, x.Updated c → ∀ other, Beside x.place other → s.Vacant other
  untouched : ∀ place, (∀ x ∈ done, x.Updated c → place ≠ x.place ∧ ¬ Beside x.place place) →
    final.get? place = s.get? place

theorem Candidate.needsHeader_iff {c : Config} {x : Candidate} :
    c.needsHeader (relative x.names) (.ofBytes x.contents) x.header = true ↔ ¬ x.Compliant c := by
  unfold Config.needsHeader Compliant
  simp

theorem Candidate.outcome_updated {c : Config} {x : Candidate} (refusals : Refusals)
    (h : x.Updated c) : x.outcome c refusals =
      { path := relative x.names, status := .updated, failure := x.failure c refusals } := by
  unfold outcome
  rw [if_neg h.1, h.2]
  rfl

namespace IsCandidate

variable {s : Store} {c : Config} {x y : Candidate} {spent : Nat} {home : Location}

theorem from_root (h : IsCandidate s c x) (reached : Reaches s c.root spent home) :
    x.place = home ++ x.names ∧ s.Descends home x.names.dropLast := by
  obtain ⟨other, found, place, down⟩ := h.below
  have inside : s.IsDirectory other := by simpa using down [] (List.nil_prefix)
  obtain ⟨_, reached'⟩ := reaches_of_locate found inside
  obtain ⟨_, rfl⟩ := reached.unique reached'
  exact ⟨place, down⟩

theorem one_root (h : IsCandidate s c x) (h' : IsCandidate s c y) :
    ∃ home, x.place = home ++ x.names ∧ y.place = home ++ y.names := by
  obtain ⟨home, found, place, _⟩ := h.below
  obtain ⟨home', found', place', _⟩ := h'.below
  rw [found] at found'
  cases found'
  exact ⟨home, place, place'⟩

theorem eq_of_names (h : IsCandidate s c x) (h' : IsCandidate s c y) (same : x.names = y.names) :
    x = y := by
  obtain ⟨home, place, place'⟩ := h.one_root h'
  have places : x.place = y.place := by rw [place, place', same]
  have files := h.file
  rw [places, h'.file] at files
  have headers := h.header
  rw [same, h'.header] at headers
  cases x
  cases y
  simp_all

theorem eq_of_place (h : IsCandidate s c x) (h' : IsCandidate s c y) (same : x.place = y.place) :
    x = y := by
  obtain ⟨home, place, place'⟩ := h.one_root h'
  rw [place, place'] at same
  exact h.eq_of_names h' (List.append_cancel_left same)

theorem trichotomy (h : IsCandidate s c x) (h' : IsCandidate s c y) :
    x.Earlier y ∨ x = y ∨ y.Earlier x := by
  rcases lt_trichotomy (x.names.map Name.text) (y.names.map Name.text) with before | same | after
  · exact .inl before
  · exact .inr (.inl (h.eq_of_names h' (List.map_injective_iff.2 (fun _ _ => Name.text_injective) same)))
  · exact .inr (.inr after)

theorem concat (h : IsCandidate s c x) : ∃ directory name, x.names = directory ++ [name] :=
  ⟨_, _, (List.dropLast_concat_getLast h.named).symm⟩

theorem beside (h : IsCandidate s c x) (h' : IsCandidate s c y) (beside : Beside x.place y.place) :
    ∃ directory, ∃ name longer : Name, longer.text = name.text ++ temporaryEnding ∧
      x.names = directory ++ [name] ∧ y.names = directory ++ [longer] := by
  obtain ⟨home, place, place'⟩ := h.one_root h'
  obtain ⟨directory, name, names⟩ := h.concat
  rw [place, names, ← List.append_assoc] at beside
  obtain ⟨longer, text, eq⟩ := beside.concat
  rw [place', List.append_assoc] at eq
  exact ⟨directory, name, longer, text, names, List.append_cancel_left eq⟩

theorem at_child (h : IsCandidate s c x) (reached : Reaches s c.root spent home) :
    ∃ directory, ∃ name : Name, x.path c = (c.root.below directory).child name.text ∧
      x.place = home ++ directory ++ [name] ∧ s.Descends home directory := by
  obtain ⟨directory, name, names⟩ := h.concat
  obtain ⟨place, down⟩ := h.from_root reached
  rw [names, List.dropLast_concat] at down
  rw [names, ← List.append_assoc] at place
  refine ⟨directory, name, ?_, place, down⟩
  rw [Candidate.path, names, Path.below_concat]

theorem place_ne (h : IsCandidate s c x) (h' : IsCandidate s c y) (earlier : x.Earlier y) :
    x.place ≠ y.place := by
  intro same
  rw [h.eq_of_place h' same] at earlier
  exact lt_irrefl _ earlier

theorem earlier_of_beside (h : IsCandidate s c x) (h' : IsCandidate s c y)
    (beside : Beside x.place y.place) : x.Earlier y := by
  obtain ⟨directory, name, longer, text, names, names'⟩ := h.beside h' beside
  have shorter : Store.Earlier name longer := by
    have more : name.text ++ [] < name.text ++ temporaryEnding :=
      List.append_left_lt (List.nil_lt_cons _ _)
    rw [List.append_nil, ← text] at more
    exact more
  unfold Candidate.Earlier
  rw [names, names']
  exact before_of_names (List.prefix_refl _) (List.prefix_refl _) shorter

theorem of_eligible {directory : Location} {name : Name} {contents : Bytes} {header : Header}
    (found : s.locate c.root = .ok home) (down : s.Descends home directory)
    (held : s.get? (home ++ directory ++ [name]) = some (.file contents))
    (eligible : c.eligible? (relative (directory ++ [name])) = some header) :
    IsCandidate s c ⟨directory ++ [name], home ++ directory ++ [name], contents, header⟩ := by
  rw [Config.eligible?_relative] at eligible
  split at eligible
  · cases eligible
  rename_i included
  refine ⟨⟨home, found, by simp, by simpa using down⟩, by simp, held, ?_, ?_⟩
  · rw [extension_relative]
    exact eligible
  · intro start member begins
    apply included
    rw [Config.excludes_iff]
    exact ⟨start, member, by simpa using begins⟩

theorem eligible (h : IsCandidate s c x) : c.eligible? (relative x.names) = some x.header := by
  obtain ⟨directory, name, names⟩ := h.concat
  have header := h.header
  have included := h.included
  rw [names, List.dropLast_concat] at included
  rw [names, extension_relative] at header
  rw [names, Config.eligible?_relative, if_neg, header]
  rw [Config.excludes_iff]
  intro given
  obtain ⟨start, member, begins⟩ := given
  exact included start member begins

end IsCandidate

theorem IsBatch.unique {s : Store} {c : Config} {a b : List Candidate} (h : IsBatch s c a)
    (h' : IsBatch s c b) : a = b := by
  have different : ∀ {x y : Candidate}, x.Earlier y → x ≠ y := by
    intro x y earlier same
    subst same
    exact lt_irrefl _ earlier
  have same : a.Perm b := by
    apply (List.perm_ext_iff_of_nodup (h.ordered.imp different) (h'.ordered.imp different)).2
    intro x
    rw [h.complete, h'.complete]
  refine List.Perm.eq_of_pairwise ?_ h.ordered h'.ordered same
  intro x y _ _ first second
  exact absurd (lt_trans first second) (lt_irrefl _)

namespace Settled

variable {s final : Store} {c : Config} {refusals : Refusals} {done : List Candidate}

theorem start (s : Store) (c : Config) (refusals : Refusals) : Settled s s c refusals [] := by
  constructor
  · rfl
  · intro x member
    cases member
  · intro x member
    cases member
  · intro x member
    cases member
  · intro place _
    rfl

theorem entry (h : Settled s final c refusals done) (members : ∀ x ∈ done, IsCandidate s c x)
    (place : Location) :
    final.get? place = s.get? place ∨ s.Vacant place ∧ final.Vacant place := by
  by_cases touched : ∃ x ∈ done, x.Updated c ∧ (place = x.place ∨ Beside x.place place)
  · right
    obtain ⟨x, member, updated, at_⟩ := touched
    have file := (members x member).file
    cases refuse : refusals (x.path c).toText with
    | none =>
      obtain ⟨rewritten, gone⟩ := h.replaced x member updated refuse
      rcases at_ with rfl | beside
      · exact ⟨.inr ⟨_, file⟩, .inr ⟨_, rewritten⟩⟩
      · exact ⟨h.vacant x member updated place beside, .inl (gone place beside)⟩
    | some refusal =>
      obtain ⟨kept, other, beside', written⟩ := h.refused x member updated (by simp [refuse])
      rcases at_ with rfl | beside
      · exact ⟨.inr ⟨_, file⟩, .inr ⟨_, kept⟩⟩
      · rw [beside'.unique beside] at written
        exact ⟨h.vacant x member updated place beside, .inr ⟨_, written⟩⟩
  · left
    apply h.untouched place
    intro x member updated
    constructor
    · intro same
      exact touched ⟨x, member, updated, .inl same⟩
    · intro beside
      exact touched ⟨x, member, updated, .inr beside⟩

theorem sameDirectories (h : Settled s final c refusals done)
    (members : ∀ x ∈ done, IsCandidate s c x) : SameDirectories s final := by
  intro place
  rcases h.entry members place with same | ⟨vacant, _⟩
  · exact .inl same
  · exact .inr vacant.missing_or_opens

theorem noLink (h : Settled s final c refusals done) (members : ∀ x ∈ done, IsCandidate s c x)
    (noLinks : ∀ place target, s.get? place ≠ some (.link target)) (place : Location)
    (target : Text) : final.get? place ≠ some (.link target) := by
  rcases h.entry members place with same | ⟨_, vacant⟩
  · rw [same]
    exact noLinks place target
  · exact vacant.not_link target

theorem keep (h : Settled s final c refusals done) {x : Candidate} (kept : ¬ x.Updated c) :
    Settled s final c refusals (done ++ [x]) := by
  have old : ∀ y ∈ done ++ [x], y.Updated c → y ∈ done := by
    intro y member updated
    rcases List.mem_append.1 member with earlier | last
    · exact earlier
    · rw [List.mem_singleton.1 last] at updated
      exact absurd updated kept
  constructor
  · exact h.base
  · intro y member updated
    exact h.replaced y (old y member updated) updated
  · intro y member updated
    exact h.refused y (old y member updated) updated
  · intro y member updated
    exact h.vacant y (old y member updated) updated
  · intro place apart
    apply h.untouched place
    intro y member
    exact apart y (List.mem_append_left _ member)

variable {next : Store} {x : Candidate} {beside : Location}

theorem update (h : Settled s final c refusals done) (changed : x.Updated c)
    (file : final.get? x.place = some (.file x.contents))
    (apart : ∀ y ∈ done, y.place ≠ x.place ∧ (y.Updated c → ¬ Beside y.place x.place) ∧
      ¬ Beside x.place y.place)
    (there : Beside x.place beside) (vacant : s.Vacant beside) (base : next.base = final.base)
    (entries : match refusals (x.path c).toText with
      | some _ => ∀ other, next.get? other =
        if other = beside then some (.file x.rewritten) else final.get? other
      | none => ∀ other, next.get? other =
        if other = x.place then some (.file x.rewritten)
        else if other = beside then none else final.get? other) :
    Settled s next c refusals (done ++ [x]) := by
  have frame : ∀ other, other ≠ x.place → other ≠ beside → next.get? other = final.get? other := by
    intro other first second
    split at entries
    · rw [entries, if_neg second]
    · rw [entries, if_neg first, if_neg second]
  have own : ∀ y ∈ done, next.get? y.place = final.get? y.place := by
    intro y member
    obtain ⟨differs, _, notBeside⟩ := apart y member
    apply frame _ differs
    intro same
    subst same
    exact notBeside there
  have temporary : ∀ y ∈ done, y.Updated c → ∀ other, Beside y.place other →
      next.get? other = final.get? other := by
    intro y member updated other beside'
    obtain ⟨differs, notBeside, _⟩ := apart y member
    refine frame _ ?_ ?_
    · intro same
      subst same
      exact notBeside updated beside'
    · intro same
      subst same
      exact differs (beside'.injective there)
  constructor
  · exact base.trans h.base
  · intro y member updated allow
    rcases List.mem_append.1 member with earlier | last
    · obtain ⟨rewritten, gone⟩ := h.replaced y earlier updated allow
      constructor
      · rw [own y earlier, rewritten]
      · intro other beside'
        rw [temporary y earlier updated other beside', gone other beside']
    · obtain rfl := List.mem_singleton.1 last
      rw [allow] at entries
      constructor
      · rw [entries, if_pos rfl]
      · intro other beside'
        rw [beside'.unique there, entries, if_neg there.ne.symm, if_pos rfl]
  · intro y member updated refuse
    rcases List.mem_append.1 member with earlier | last
    · obtain ⟨kept, other, beside', written⟩ := h.refused y earlier updated refuse
      refine ⟨?_, other, beside', ?_⟩
      · rw [own y earlier, kept]
      · rw [temporary y earlier updated other beside', written]
    · obtain rfl := List.mem_singleton.1 last
      obtain ⟨refusal, some⟩ := Option.ne_none_iff_exists'.1 refuse
      rw [some] at entries
      refine ⟨?_, beside, there, ?_⟩
      · rw [entries, if_neg there.ne, file]
      · rw [entries, if_pos rfl]
  · intro y member updated other beside'
    rcases List.mem_append.1 member with earlier | last
    · exact h.vacant y earlier updated other beside'
    · obtain rfl := List.mem_singleton.1 last
      rw [beside'.unique there]
      exact vacant
  · intro place away
    obtain ⟨notOwn, notBeside⟩ := away x (by simp) changed
    rw [frame place notOwn (fun same => notBeside (same ▸ there))]
    exact h.untouched place fun y member => away y (List.mem_append_left _ member)

end Settled

/-- The temporary file of one that could not be replaced may be a candidate itself, but then nothing
is to be done to it, and the same header is for both. -/
def Spared (s : Store) (c : Config) (refusals : Refusals) : Prop :=
  ∀ x y, IsCandidate s c x → IsCandidate s c y → x.Updated c → refusals (x.path c).toText ≠ none →
    Beside x.place y.place → y.Compliant c ∧ y.header = x.header

/-- These candidates have been dealt with and reported, and nothing else has happened. -/
structure Underway (s : Store) (c : Config) (refusals : Refusals) (done : List Candidate)
    (g : Progress) : Prop where
  members : ∀ x ∈ done, IsCandidate s c x
  settled : Settled s g.store c refusals done
  reported : g.journal.outcomes = done.map (·.outcome c refusals)

namespace Underway

variable {s : Store} {c : Config} {refusals : Refusals} {done : List Candidate} {g : Progress}
variable {spent : Nat} {home : Location}

theorem record (h : Underway s c refusals done g) (event : Event)
    (silent : ∀ outcome, event ≠ .reported outcome) :
    Underway s c refusals done { g with journal := g.journal ++ [event] } := by
  refine ⟨h.members, h.settled, ?_⟩
  rw [← h.reported]
  cases event with
  | reported outcome => exact absurd rfl (silent outcome)
  | listed | wrote | moved | noted => simp [Journal.outcomes]

theorem reaches (h : Underway s c refusals done g) {names : Location}
    (reached : Reaches s c.root spent home) (down : s.Descends home names) :
    Reaches g.store (c.root.below names) spent (home ++ names) :=
  (reached.below down).same (h.settled.sameDirectories h.members) h.settled.base

theorem held (h : Underway s c refusals done g) {x : Candidate} (candidate : IsCandidate s c x)
    (reached : Reaches s c.root spent home)
    (noLinks : ∀ place target, s.get? place ≠ some (.link target)) {contents : Bytes}
    (read : g.store.read (x.path c) = .ok contents) :
    g.store.get? x.place = some (.file contents) := by
  obtain ⟨directory, name, path, place, down⟩ := candidate.at_child reached
  rw [path] at read
  rw [place]
  rcases ((h.reaches reached down).opens read).cases with file | ⟨target, _, _, link, _⟩
  · exact file
  · exact absurd link (h.settled.noLink h.members noLinks _ target)

section Turn

variable {x : Candidate} (h : Underway s c refusals done g) (candidate : IsCandidate s c x)
variable (earlier : ∀ y ∈ done, y.Earlier x)
include h candidate earlier

theorem place_ne : ∀ y ∈ done, y.place ≠ x.place := by
  intro y member
  exact (h.members y member).place_ne candidate (earlier y member)

theorem not_beside : ∀ y ∈ done, ¬ Beside x.place y.place := by
  intro y member beside
  exact lt_asymm (earlier y member) (candidate.earlier_of_beside (h.members y member) beside)

theorem contents (spared : Spared s c refusals) {contents : Bytes}
    (held : g.store.get? x.place = some (.file contents)) :
    (contents = x.contents ∧ ∀ y ∈ done, y.Updated c → ¬ Beside y.place x.place) ∨
      x.Compliant c ∧ c.needsHeader (relative x.names) (.ofBytes contents) x.header = false := by
  by_cases touched : ∃ y ∈ done, y.Updated c ∧ Beside y.place x.place
  · right
    obtain ⟨y, member, updated, beside⟩ := touched
    by_cases allow : refusals (y.path c).toText = none
    · have gone := (h.settled.replaced y member updated allow).2 x.place beside
      rw [held] at gone
      cases gone
    · obtain ⟨_, other, beside', written⟩ := h.settled.refused y member updated allow
      rw [beside'.unique beside, held] at written
      cases written
      obtain ⟨compliant, header⟩ := spared y x (h.members y member) candidate updated allow beside
      refine ⟨compliant, ?_⟩
      rw [header]
      exact Config.needsHeader_own c _ y.header y.contents
  · left
    have notBeside : ∀ y ∈ done, y.Updated c → ¬ Beside y.place x.place := by
      intro y member updated beside
      exact touched ⟨y, member, updated, beside⟩
    have same := h.settled.untouched x.place fun y member updated =>
      ⟨(h.place_ne candidate earlier y member).symm, notBeside y member updated⟩
    rw [held, candidate.file] at same
    cases same
    exact ⟨rfl, notBeside⟩

variable (reached : Reaches s c.root spent home)
variable (noLinks : ∀ place target, s.get? place ≠ some (.link target))
include reached noLinks

theorem replaced (updated : x.Updated c)
    (own : ∀ y ∈ done, y.Updated c → ¬ Beside y.place x.place)
    (read : g.store.read (x.path c) = .ok x.contents) {failure : Option FailedMove} {g' : Progress}
    (ends : Replaced refusals (x.path c) x.rewritten g (.ok failure g')) :
    failure = x.failure c refusals ∧ Settled s g'.store c refusals (done ++ [x]) ∧
      g'.journal.outcomes = g.journal.outcomes := by
  obtain ⟨directory, name, path, place, down⟩ := candidate.at_child reached
  have file := h.held candidate reached noLinks read
  obtain ⟨fits, _⟩ := read_eq_ok read
  rw [path] at fits ends
  obtain ⟨longer, text, vacant, base, silent, failed, entries⟩ :=
    ends.entries (h.reaches reached down) fits (by rw [← place, IsDirectory, file]; simp)
      (fun beside target _ => h.settled.noLink h.members noLinks beside target)
  have there : Beside x.place (home ++ directory ++ [longer]) := ⟨_, _, _, text, place, rfl⟩
  rw [← path, ← place] at entries
  refine ⟨?_, h.settled.update updated file ?_ there ?_ base entries, silent⟩
  · have beside := Path.beside?_child (c.root.below directory) name.text temporaryEnding
    rw [← path, ← text] at beside
    rw [failed, Candidate.failure, ← path, beside]
    cases refusals (x.path c).toText <;> rfl
  · intro y member
    exact ⟨h.place_ne candidate earlier y member, own y member,
      h.not_beside candidate earlier y member⟩
  · have before := h.settled.untouched (home ++ directory ++ [longer]) fun y member _ => by
      constructor
      · intro same
        rw [same] at there
        exact h.not_beside candidate earlier y member there
      · intro beside
        exact h.place_ne candidate earlier y member (beside.injective there)
    rw [Vacant, ← before]
    exact vacant

variable (spared : Spared s c refusals)
include spared

theorem process :
    match process c refusals (x.path c) (relative x.names) x.header g with
    | .ok outcome g' => outcome = x.outcome c refusals ∧
      Settled s g'.store c refusals (done ++ [x]) ∧ g'.journal.outcomes = g.journal.outcomes
    | .error _ g' => g' = g := by
  have seen : ∀ {contents}, g.store.read (x.path c) = .ok contents → _ := fun read =>
    h.contents candidate earlier spared (h.held candidate reached noLinks read)
  have ends := processed c refusals (x.path c) (relative x.names) x.header g
  generalize Insertion.process c refusals (x.path c) (relative x.names) x.header g = result at ends ⊢
  cases ends with
  | failed fault => rfl
  | @kept _ _ read fine =>
    have compliant : x.Compliant c := by
      rcases seen read with ⟨rfl, _⟩ | ⟨compliant, _⟩
      · by_contra lacks
        rw [Candidate.needsHeader_iff.2 lacks] at fine
        cases fine
      · exact compliant
    refine ⟨?_, h.settled.keep (fun updated => updated.1 compliant), rfl⟩
    rw [Candidate.outcome, if_pos compliant]
  | @foreseen _ _ read lacks dry =>
    obtain ⟨rfl, _⟩ := (seen read).resolve_right (by simp [lacks])
    have needs := Candidate.needsHeader_iff.1 lacks
    refine ⟨?_, h.settled.keep (fun updated => ?_), rfl⟩
    · rw [Candidate.outcome, if_neg needs, if_pos dry]
    · rw [updated.2] at dry
      cases dry
  | @updated _ failure g' _ read lacks real ends =>
    obtain ⟨rfl, own⟩ := (seen read).resolve_right (by simp [lacks])
    have updated : x.Updated c := ⟨Candidate.needsHeader_iff.1 lacks, real⟩
    obtain ⟨failed, settled, silent⟩ :=
      h.replaced candidate earlier reached noLinks updated own read ends
    refine ⟨?_, settled, ?_⟩
    · rw [Candidate.outcome_updated refusals updated, failed]
    · simp only [Journal.outcomes] at silent ⊢
      simp [silent]

theorem settle :
    match settle c refusals (x.path c) (relative x.names) g with
    | .ok now g' =>
      now = some (x.outcome c refusals) ∧ Underway s c refusals (done ++ [x]) g'
    | .error _ g' => Underway s c refusals done g' := by
  have step := h.process candidate earlier reached noLinks spared
  unfold Insertion.settle
  rw [candidate.eligible]
  simp only [Job.bind_apply]
  generalize Insertion.process c refusals (x.path c) (relative x.names) x.header g = result at step ⊢
  cases result with
  | error fault g' =>
    obtain rfl : g' = g := step
    exact h
  | ok outcome g' =>
    obtain ⟨rfl, settled, silent⟩ := step
    refine ⟨rfl, ?_, settled, ?_⟩
    · intro y member
      rcases List.mem_append.1 member with earlier | last
      · exact h.members y earlier
      · rwa [List.mem_singleton.1 last]
    · have reported := h.reported
      rw [← silent] at reported
      simp only [Journal.outcomes] at reported ⊢
      simp [reported]

end Turn

end Underway

end LicenseHeaders.Insertion
