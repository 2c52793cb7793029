import LicenseHeaders.Proofs.Decoding
import LicenseHeaders.Proofs.Update

/-!
What becomes of paths while files get headers. One header at a time, an entry that opens a file is
replaced by a file that holds the same bytes behind the header, and the temporary entry beside it
vanishes. Nothing is ever created, so a path that leads nowhere leads nowhere later, one to a
directory leads there still, and one to a file leads to a file that ends in the same bytes, or
nowhere.
-/
namespace LicenseHeaders.Store
open Insertion

def IsTree (s : Store) : Prop :=
  ∀ place, s.IsDirectory place → s.IsDirectory place.dropLast

def NoTemporaryLink (s : Store) : Prop :=
  ∀ place name target, s.get? (place ++ [name]) = some (.link target) →
    ¬ temporaryEnding <:+ name.text

structure Rewrites (s s' : Store) (place beside : Location) (header : Text) (contents : Bytes) :
    Prop where
  opens : s.Opens place contents
  apart : Beside place beside
  vacant : s.Vacant beside
  base : s'.base = s.base
  entries : ∀ other, s'.get? other =
    if other = place then some (.file (Utf8.encode header ++ contents))
    else if other = beside then none else s.get? other

namespace Rewrites

variable {s s' : Store} {place beside : Location} {header : Text} {contents : Bytes}

theorem at_place (h : Rewrites s s' place beside header contents) :
    s'.get? place = some (.file (Utf8.encode header ++ contents)) := by
  rw [h.entries, if_pos rfl]

theorem before (h : Rewrites s s' place beside header contents) {other : Location} {node : Node}
    (held : s'.get? other = some node) (kind : node.kind ≠ .file) : s.get? other = some node := by
  rw [h.entries] at held
  split at held
  · cases held
    exact absurd rfl kind
  · split at held
    · cases held
    · exact held

theorem missing (h : Rewrites s s' place beside header contents) {other : Location}
    (gone : s.get? other = none) : s'.get? other = none := by
  rw [h.entries]
  split
  · rename_i same
    obtain ⟨node, held, _⟩ := h.opens.held
    rw [← same, gone] at held
    cases held
  · split
    · rfl
    · exact gone

theorem sameDirectories (h : Rewrites s s' place beside header contents) : SameDirectories s s' := by
  intro other
  rw [h.entries]
  split
  · rename_i same
    subst same
    exact .inr (.inr ⟨contents, h.opens⟩)
  · split
    · rename_i same
      subst same
      exact .inr h.vacant.missing_or_opens
    · exact .inl rfl

theorem isDirectory_iff (h : Rewrites s s' place beside header contents) {other : Location} :
    s'.IsDirectory other ↔ s.IsDirectory other := by
  constructor
  · intro inside
    exact h.before inside (by simp [Node.kind])
  · exact h.sameDirectories.isDirectory

theorem reaches (h : Rewrites s s' place beside header contents) {p : Path} {spent : Nat}
    {home : Location} (reached : Reaches s p spent home) : Reaches s' p spent home :=
  reached.same h.sameDirectories h.base

theorem file (h : Rewrites s s' place beside header contents) {other : Location} {old : Bytes}
    (file : s.get? other = some (.file old)) :
    s'.get? other = none ∨ ∃ more, s'.get? other = some (.file (Utf8.encode more ++ old)) := by
  rw [h.entries]
  split
  · rename_i same
    rw [same] at file
    obtain rfl := h.opens.of_file file
    exact .inr ⟨header, rfl⟩
  · split
    · exact .inl rfl
    · exact .inr ⟨[], file⟩

theorem link (h : Rewrites s s' place beside header contents) {other : Location} {target : Text}
    (held : s.get? other = some (.link target)) (differs : other ≠ place) :
    s'.get? other = some (.link target) := by
  rw [h.entries, if_neg differs, if_neg, held]
  intro temporary
  rw [temporary] at held
  exact h.vacant.not_link target held

theorem isTree (h : Rewrites s s' place beside header contents) (tree : s.IsTree) : s'.IsTree := by
  intro other inside
  exact h.isDirectory_iff.2 (tree other (h.isDirectory_iff.1 inside))

theorem noTemporaryLink (h : Rewrites s s' place beside header contents)
    (plain : s.NoTemporaryLink) : s'.NoTemporaryLink := by
  intro above name target held
  exact plain above name target (h.before held (by simp [Node.kind]))

end Rewrites

/-- How what a path leads to changes. Errors other than a missing file are none of our concern. -/
inductive Ages (s s' : Store) : Except Cause Location → Except Cause Location → Prop where
  | directory {place : Location} (inside : s.IsDirectory place) : Ages s s' (.ok place) (.ok place)
  | file {place other : Location} {contents : Bytes} {more : Text}
      (before : s.get? place = some (.file contents))
      (after : s'.get? other = some (.file (Utf8.encode more ++ contents))) :
      Ages s s' (.ok place) (.ok other)
  | lost {place : Location} {contents : Bytes} (before : s.get? place = some (.file contents)) :
      Ages s s' (.ok place) (.error .notFound)
  | missing : Ages s s' (.error .notFound) (.error .notFound)
  | fault {cause : Cause} {result : Except Cause Location} (other : cause ≠ .notFound) :
      Ages s s' (.error cause) result

theorem onLink_opens {s : Store} {a last : Location} {target : Text} {n : Nat} {old : Bytes}
    (chain : Leads s n (linkStart a target) (linkSteps target) last)
    (file : s.get? last = some (.file old)) (links : Nat) (rest : List Step) :
    s.onLink false links a target rest = .ok last ∧ rest = [] ∨
      ∃ cause, cause ≠ .notFound ∧ s.onLink false links a target rest = .error cause := by
  cases links with
  | zero => exact .inr ⟨.tooManyLinks, by simp, rfl⟩
  | succ links =>
    have way := chain.travel false links rest (.inl rfl)
    have steps : s.onLink false (links + 1) a target rest =
        s.travel false links (linkStart a target) (linkSteps target ++ rest) := by
      simp [onLink, linkSteps]
    rw [steps, way]
    split
    · cases rest with
      | nil => exact .inl ⟨travel_nil _ _ _ _, rfl⟩
      | cons step rest =>
        have stop : ¬ s.IsDirectory last := by simp [IsDirectory, file]
        exact .inr ⟨.notADirectory, by simp, travel_outside stop _ _ _ _⟩
    · exact .inr ⟨.tooManyLinks, by simp, rfl⟩

namespace Rewrites

variable {s s' : Store} {place beside : Location} {header : Text} {contents : Bytes}

theorem into_file_ages (h : Rewrites s s' place beside header contents) {a : Location} {name : Name}
    {old : Bytes} (inside : s.IsDirectory a) (held : s.get? (a ++ [name]) = some (.file old))
    (links : Nat) (rest : List Step) :
    Ages s s' (s.travel false links a (.into name.text :: rest))
      (s'.travel false links a (.into name.text :: rest)) := by
  rw [travel_into inside, travel_into (h.isDirectory_iff.2 inside), held]
  dsimp only
  cases rest with
  | cons step rest =>
    have stop : ¬ s.IsDirectory (a ++ [name]) := by simp [IsDirectory, held]
    rw [travel_outside stop]
    exact .fault (by simp)
  | nil =>
    rw [travel_nil]
    rcases h.file held with gone | ⟨more, file⟩
    · rw [gone]
      exact .lost held
    · rw [file]
      dsimp only
      rw [travel_nil]
      exact .file held file

theorem into_link_ages {a : Location} {name : Name} {target : Text}
    (h : Rewrites s s' (a ++ [name]) beside header contents) (inside : s.IsDirectory a)
    (held : s.get? (a ++ [name]) = some (.link target)) (links : Nat) (rest : List Step) :
    Ages s s' (s.travel false links a (.into name.text :: rest))
      (s'.travel false links a (.into name.text :: rest)) := by
  rw [travel_into inside, travel_into (h.isDirectory_iff.2 inside), held, h.at_place]
  obtain ⟨n, last, chain, file⟩ := h.opens.of_link held
  dsimp only
  rcases onLink_opens chain file links rest with ⟨ok, rfl⟩ | ⟨cause, other, error⟩
  · rw [ok, travel_nil]
    exact .file file h.at_place
  · rw [error]
    exact .fault other

theorem travel_ages (h : Rewrites s s' place beside header contents) (tree : s.IsTree)
    (links : Nat) {a : Location} (inside : s.IsDirectory a) (steps : List Step) :
    Ages s s' (s.travel false links a steps) (s'.travel false links a steps) := by
  -- a link puts its own steps before the rest, so the steps get fewer only between two links
  induction links using Nat.strongRecOn generalizing a steps with
  | ind links ihLinks =>
    induction steps generalizing a with
    | nil =>
      rw [travel_nil, travel_nil]
      exact .directory inside
    | cons step rest ih =>
      have inside' := h.isDirectory_iff.2 inside
      cases step with
      | stay =>
        rw [travel_stay inside, travel_stay inside', if_neg (by simp), if_neg (by simp)]
        exact ih inside
      | up =>
        rw [travel_up inside, travel_up inside', if_neg (by simp), if_neg (by simp)]
        exact ih (tree a inside)
      | into part =>
        cases named : Name.ofText? part with
        | none =>
          rw [travel_unnamed inside named]
          exact .fault (by simp)
        | some name =>
          obtain rfl := Name.text_of_ofText? named
          rw [travel_into inside, travel_into inside']
          cases held : s.get? (a ++ [name]) with
          | none =>
            rw [h.missing held]
            exact .missing
          | some node =>
            cases node with
            | directory =>
              have held' : s'.get? (a ++ [name]) = some .directory := h.isDirectory_iff.2 held
              rw [held']
              exact ih held
            | file old =>
              have ages := h.into_file_ages inside held links rest
              rwa [travel_into inside, travel_into inside', held] at ages
            | link target =>
              by_cases own : a ++ [name] = place
              · subst own
                have ages := h.into_link_ages inside held links rest
                rwa [travel_into inside, travel_into inside', held] at ages
              · rw [h.link held own]
                cases links with
                | zero => exact .fault (by simp)
                | succ links =>
                  exact ihLinks links (by omega) (linkStart_isDirectory inside target) _

theorem locate_ages (h : Rewrites s s' place beside header contents) (tree : s.IsTree)
    {dir : Path} {spent : Nat} {home : Location} (reached : Reaches s dir spent home) (name : Name) :
    Ages s s' (s.locate (dir.child name.text)) (s'.locate (dir.child name.text)) := by
  rw [locate_eq, locate_eq]
  split
  · rw [reached.follow_child, (h.reaches reached).follow_child]
    exact h.travel_ages tree _ reached.inside _
  · exact .fault (by simp)

theorem follow_ages (h : Rewrites s s' place beside header contents) (tree : s.IsTree)
    (here : s.IsDirectory s.base) (route : Route) :
    Ages s s' (s.follow false route) (s'.follow false route) := by
  have inside : s.IsDirectory (route.start s.base) := by
    unfold Route.start
    split
    · exact s.root_isDirectory
    · exact here
  unfold Store.follow
  rw [h.base]
  exact h.travel_ages tree _ inside _

end Rewrites

/-- The store has aged: some of its files have got headers, one after the other. -/
inductive Later (s : Store) : Store → Prop where
  | same : Later s s
  | next {s' s'' : Store} {place beside : Location} {header : Text} {contents : Bytes}
      (first : Later s s') (last : Rewrites s' s'' place beside header contents) : Later s s''

namespace Later

variable {s s' s'' : Store}

theorem trans (first : Later s s') (second : Later s' s'') : Later s s'' := by
  induction second with
  | same => exact first
  | next _ last ih => exact .next ih last

theorem once {place beside : Location} {header : Text} {contents : Bytes}
    (h : Rewrites s s' place beside header contents) : Later s s' :=
  .next .same h

theorem isTree (h : Later s s') (tree : s.IsTree) : s'.IsTree := by
  induction h with
  | same => exact tree
  | next _ last ih => exact last.isTree ih

theorem noTemporaryLink (h : Later s s') (plain : s.NoTemporaryLink) : s'.NoTemporaryLink := by
  induction h with
  | same => exact plain
  | next _ last ih => exact last.noTemporaryLink ih

theorem missing (h : Later s s') {place : Location} (gone : s.get? place = none) :
    s'.get? place = none := by
  induction h with
  | same => exact gone
  | next _ last ih => exact last.missing ih

theorem isDirectory_iff (h : Later s s') {place : Location} :
    s'.IsDirectory place ↔ s.IsDirectory place := by
  induction h with
  | same => exact Iff.rfl
  | next _ last ih => exact last.isDirectory_iff.trans ih

theorem reaches (h : Later s s') {p : Path} {spent : Nat} {home : Location}
    (reached : Reaches s p spent home) : Reaches s' p spent home := by
  induction h with
  | same => exact reached
  | next _ last ih => exact last.reaches ih

theorem file (h : Later s s') {place : Location} {contents : Bytes}
    (file : s.get? place = some (.file contents)) : s'.Vacant place := by
  induction h with
  | same => exact .inr ⟨contents, file⟩
  | next _ last ih =>
    rcases ih with gone | ⟨old, file⟩
    · exact .inl (last.missing gone)
    · rcases last.file file with gone | ⟨more, file⟩
      · exact .inl gone
      · exact .inr ⟨_, file⟩

theorem base (h : Later s s') : s'.base = s.base := by
  induction h with
  | same => rfl
  | next _ last ih => exact last.base.trans ih

section Follow

variable (h : Later s s') (tree : s.IsTree) (here : s.IsDirectory s.base)
include h tree here

theorem follow {route : Route} {place : Location} (found : s.follow false route = .ok place)
    (solid : ∀ contents, s.get? place ≠ some (.file contents)) :
    s'.follow false route = .ok place ∧ ∀ contents, s'.get? place ≠ some (.file contents) := by
  induction h with
  | same => exact ⟨found, solid⟩
  | @next between after _ _ _ _ first last ih =>
    obtain ⟨found, solid⟩ := ih
    have here' := first.isDirectory_iff.2 here
    rw [← first.base] at here'
    have ages := last.follow_ages (first.isTree tree) here' route
    rw [found] at ages
    generalize after.follow false route = result at ages ⊢
    cases ages with
    | file held => exact absurd held (solid _)
    | lost held => exact absurd held (solid _)
    | directory inside =>
      refine ⟨rfl, fun contents file => ?_⟩
      have inside' := last.isDirectory_iff.2 inside
      rw [IsDirectory, file] at inside'
      cases inside'

theorem read {p : Path} {contents contents' : Bytes} (opened : s.read p = .ok contents)
    (opened' : s'.read p = .ok contents') : ∃ more, contents' = Utf8.encode more ++ contents := by
  obtain ⟨fits, place, found, file⟩ := read_eq_ok opened
  have aged : s'.locate p = .error .notFound ∨ ∃ other more, s'.locate p = .ok other ∧
      s'.get? other = some (.file (Utf8.encode more ++ contents)) := by
    clear opened opened'
    induction h with
    | same => exact .inr ⟨place, [], found, file⟩
    | @next between after _ _ _ _ first last ih =>
      have here' := first.isDirectory_iff.2 here
      rw [← first.base] at here'
      have ages := last.follow_ages (first.isTree tree) here' (.ofPath p)
      rw [locate_eq, if_pos fits] at ih ⊢
      generalize after.follow false (.ofPath p) = result at ages ⊢
      rcases ih with lost | ⟨other, more, found, file⟩
      · rw [lost] at ages
        cases ages with
        | missing => exact .inl rfl
        | fault other => exact absurd rfl other
      · rw [found] at ages
        cases ages with
        | directory inside =>
          rw [IsDirectory, file] at inside
          cases inside
        | lost => exact .inl rfl
        | @file _ next _ again before held =>
          rw [file] at before
          cases before
          refine .inr ⟨next, again ++ more, rfl, ?_⟩
          rw [held, Utf8.encode_append, List.append_assoc]
  rcases aged with lost | ⟨other, more, found', file'⟩
  · obtain ⟨_, _, found', _⟩ := read_eq_ok opened'
    rw [lost] at found'
    cases found'
  · rw [read_of_locate found' file'] at opened'
    cases opened'
    exact ⟨more, rfl⟩

end Follow

end Later

end LicenseHeaders.Store
