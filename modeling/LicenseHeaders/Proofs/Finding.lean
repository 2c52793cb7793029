import LicenseHeaders.Proofs.ListedDirectories
import LicenseHeaders.Proofs.Spelling

/-!
What a walk finds in a store that stays as it is. Found are the files, and the links that lead to
one, in the directories to which the walk comes: those that real directories lead to from the root,
none of them pruned. Each is answered once, in the order of the names on the way down, and no
directory is listed to which only a link leads.
-/
namespace LicenseHeaders.Traversal
open Store Insertion

/-- A file stands there, or a link under whose path a file is found. -/
def Shows (s : Store) (p : Path) (place : Location) : Prop :=
  (∃ contents, s.get? place = some (.file contents)) ∨
    (∃ target, s.get? place = some (.link target)) ∧ s.kindAt p = .ok .file

structure IsFound (s : Store) (prune : Text → Bool) (root : Path) (names : Location) : Prop where
  named : names ≠ []
  there : ∃ home, s.locate root = .ok home ∧ Entered s prune home names.dropLast ∧
    Shows s (root.below names) (home ++ names)

variable {α : Type} {s : Store} {prune : Text → Bool} {root : Path} {home names : Location}

namespace IsFound

theorem from_root (h : IsFound s prune root names) (found : s.locate root = .ok home) :
    Entered s prune home names.dropLast ∧ Shows s (root.below names) (home ++ names) := by
  obtain ⟨home', found', entered, shows⟩ := h.there
  rw [found] at found'
  cases found'
  exact ⟨entered, shows⟩

theorem tip (h : IsFound s prune root names) (found : s.locate root = .ok home) :
    Tip s home names := by
  obtain ⟨entered, shows⟩ := h.from_root found
  refine ⟨h.named, entered.down, ?_⟩
  rcases shows with ⟨contents, file⟩ | ⟨⟨target, link⟩, _⟩
  · exact ⟨_, file, by simp [Node.kind]⟩
  · exact ⟨_, link, by simp [Node.kind]⟩

theorem of_entry {name : Name} (found : s.locate root = .ok home) (h : Entered s prune home names)
    (shows : Shows s (root.below (names ++ [name])) (home ++ names ++ [name])) :
    IsFound s prune root (names ++ [name]) := by
  refine ⟨by simp, home, found, by simpa using h, ?_⟩
  rwa [← List.append_assoc]

end IsFound

/-- A part of the walk has found all that is of a kind, in order, and has left the store alone. -/
structure Explored (s : Store) (prune : Text → Bool) (root : Path) (kind : Location → Prop)
    (g g' : Progress) (all : List Location) : Prop where
  complete : ∀ x, x ∈ all ↔ IsFound s prune root x ∧ kind x
  ordered : all.Pairwise Before
  store : g'.store = g.store

namespace Explored

variable {kind kind' : Location → Prop} {g g' g'' : Progress} {all more : List Location}

theorem congr (h : Explored s prune root kind g g' all)
    (same : ∀ x, IsFound s prune root x → (kind x ↔ kind' x)) :
    Explored s prune root kind' g g' all := by
  refine ⟨?_, h.ordered, h.store⟩
  intro x
  rw [h.complete]
  exact and_congr_right (same x)

theorem nothing (none : ∀ x, IsFound s prune root x → ¬ kind x) (same : g'.store = g.store) :
    Explored s prune root kind g g' [] := by
  refine ⟨?_, .nil, same⟩
  intro x
  constructor
  · intro member
    cases member
  · intro given
    exact absurd given.2 (none x given.1)

theorem one (found : s.locate root = .ok home) (h : IsFound s prune root names) (g : Progress) :
    Explored s prune root (names <+: ·) g g [names] := by
  refine ⟨?_, List.pairwise_singleton _ _, rfl⟩
  intro x
  rw [List.mem_singleton]
  constructor
  · intro same
    subst same
    exact ⟨h, List.prefix_refl _⟩
  · intro given
    obtain ⟨h', under⟩ := given
    exact (h'.tip found).names_eq (h.tip found).not_isDirectory under

theorem append (first : Explored s prune root kind g g' all)
    (second : Explored s prune root kind' g' g'' more)
    (before : ∀ x y, kind x → kind' y → Before x y) :
    Explored s prune root (fun x => kind x ∨ kind' x) g g'' (all ++ more) := by
  refine ⟨?_, List.pairwise_append.2 ⟨first.ordered, second.ordered, ?_⟩,
    second.store.trans first.store⟩
  · intro x
    rw [List.mem_append, first.complete, second.complete, and_or_left]
  · intro x early y late
    exact before x y ((first.complete x).1 early).2 ((second.complete y).1 late).2

end Explored

section Walk

variable (answer : Path → Text → α) {enter : Path → Text → Job (List α)} {g g' : Progress}
variable {outcomes : List α}
variable (found : s.locate root = .ok home) (entered : Entered s prune home names)
include found entered

theorem visitEntry_explored {name : Name} {node : Node} (current : g.store = s)
    (held : s.get? (home ++ names ++ [name]) = some node)
    (enters : Entered s prune home (names ++ [name]) →
      enter (root.below (names ++ [name])) (relative (names ++ [name])) g = .ok outcomes g' →
      ∃ all, outcomes = all.map (fun x => answer (root.below x) (relative x)) ∧
        Explored s prune root (names ++ [name] <+: ·) g g' all)
    (ran : visitEntry prune (fun p rel => pure (answer p rel)) enter (root.below names)
      (relative names) ⟨name, node.kind⟩ g = .ok outcomes g') :
    ∃ all, outcomes = all.map (fun x => answer (root.below x) (relative x)) ∧
      Explored s prune root (names ++ [name] <+: ·) g g' all := by
  have place : home ++ (names ++ [name]) = home ++ names ++ [name] := (List.append_assoc ..).symm
  cases node with
  | directory =>
    rw [Node.kind, visitEntry_directory] at ran
    split at ran
    · rename_i pruned
      cases ran
      refine ⟨[], rfl, .nothing ?_ rfl⟩
      intro x h under
      have above := (h.tip found).enters (place ▸ held) under
      have kept := (h.from_root found).1.kept _ above (by simp)
      rw [pruned] at kept
      cases kept
    · rename_i kept
      exact enters (entered.concat held (by simpa using kept)) ran
  | file contents =>
    obtain ⟨a, acted, rfl⟩ := visitEntry_file_eq_ok ran
    cases acted
    exact ⟨[names ++ [name]], rfl, .one found (.of_entry found entered (.inl ⟨contents, held⟩)) g⟩
  | link target =>
    have outside : ¬ s.IsDirectory (home ++ (names ++ [name])) := by
      rw [place, IsDirectory, held]
      simp
    rcases visitEntry_link_eq_ok ran with ⟨a, leads, acted, rfl⟩ | ⟨astray, _, rfl, rfl⟩
    · cases acted
      rw [current] at leads
      exact ⟨[names ++ [name]], rfl,
        .one found (.of_entry found entered (.inr ⟨⟨target, held⟩, leads⟩)) g⟩
    · rw [current] at astray
      refine ⟨[], rfl, .nothing ?_ rfl⟩
      intro x h under
      obtain rfl := (h.tip found).names_eq outside under
      rcases (h.from_root found).2 with ⟨contents, file⟩ | ⟨_, leads⟩
      · rw [place, held] at file
        cases file
      · exact astray leads

theorem visitEntries_explored
    (enters : ∀ name g g' outcomes, g.store = s → Entered s prune home (names ++ [name]) →
      enter (root.below (names ++ [name])) (relative (names ++ [name])) g = .ok outcomes g' →
      ∃ all, outcomes = all.map (fun x => answer (root.below x) (relative x)) ∧
        Explored s prune root (names ++ [name] <+: ·) g g' all)
    (entries : List Entry) (sorted : entries.Pairwise fun a b => Store.Earlier a.name b.name)
    (held : ∀ entry ∈ entries, ∃ node, s.get? (home ++ names ++ [entry.name]) = some node ∧
      entry.kind = node.kind)
    (current : g.store = s)
    (ran : visitEntries prune (fun p rel => pure (answer p rel)) enter (root.below names)
      (relative names) entries g = .ok outcomes g') :
    ∃ all, outcomes = all.map (fun x => answer (root.below x) (relative x)) ∧
      Explored s prune root (fun x => ∃ entry ∈ entries, names ++ [entry.name] <+: x) g g'
        all := by
  induction entries generalizing g outcomes with
  | nil =>
    cases ran
    exact ⟨[], rfl, .nothing (by simp) rfl⟩
  | cons entry rest ih =>
    obtain ⟨before, ordered⟩ := List.pairwise_cons.1 sorted
    obtain ⟨node, there, kind⟩ := held entry (List.mem_cons_self ..)
    obtain ⟨name, kind'⟩ := entry
    obtain rfl : kind' = node.kind := kind
    obtain ⟨now, between, later, first, second, rfl⟩ := visitEntries_cons_eq_ok ran
    obtain ⟨all, rfl, explored⟩ := visitEntry_explored answer found entered current there
      (enters name g between now current) first
    obtain ⟨more, rfl, explored'⟩ := ih ordered
      (fun other member => held other (List.mem_cons_of_mem _ member))
      (explored.store.trans current) second
    refine ⟨all ++ more, (List.map_append ..).symm, (explored.append explored' ?_).congr ?_⟩
    · intro x y own given
      obtain ⟨other, member, under⟩ := given
      exact before_of_names own under (before other member)
    · intro x _
      simp

theorem visit_explored (reached : ∃ spent, Reaches s root spent home) (depth : Nat)
    (current : g.store = s)
    (ran : visit prune (fun p rel => pure (answer p rel)) depth (root.below names) (relative names)
      g = .ok outcomes g') :
    ∃ all, outcomes = all.map (fun x => answer (root.below x) (relative x)) ∧
      Explored s prune root (names <+: ·) g g' all := by
  induction depth generalizing names g outcomes g' with
  | zero => cases ran
  | succ depth ih =>
    rw [visit_apply] at ran
    generalize listed : Job.list (root.below names) g = result at ran
    cases result with
    | error => cases ran
    | ok entries between =>
    obtain ⟨place, located, inside, rfl, rfl⟩ := Job.list_eq_ok listed
    obtain ⟨spent, reached⟩ := reached
    rw [current] at located inside
    obtain ⟨_, arrived⟩ := reaches_of_locate located inside
    obtain ⟨_, rfl⟩ := arrived.unique (reached.below entered.down)
    have after : ({ g with journal := g.journal ++ [.listed (home ++ names)] } : Progress).store = s :=
      current
    obtain ⟨all, eq, explored⟩ := visitEntries_explored answer found entered
      (fun name g g' outcomes current entered ran => ih entered current ran) _
      (g.store.sorted_entriesIn _) (fun entry member => by
        rw [← current]
        exact mem_entriesIn.1 member) after ran
    obtain ⟨complete, ordered, same⟩ := explored.congr fun x h => by
      constructor
      · intro given
        obtain ⟨entry, _, under⟩ := given
        exact (List.prefix_append _ _).trans under
      · intro under
        have goesOn := (h.tip found).enters inside under
        obtain ⟨name, node, under', held⟩ := (h.tip found).next goesOn
        refine ⟨⟨name, node.kind⟩, ?_, under'⟩
        rw [mem_entriesIn, current]
        exact ⟨node, held, rfl⟩
    exact ⟨all, eq, complete, ordered, same⟩

end Walk

theorem files_apply (prune : Text → Bool) (root : Path) (g : Progress) :
    files prune root g = visit prune (fun p rel => pure (p, rel)) (g.store.directoryCount + 1)
      (root.below []) (relative []) g := by
  rw [Path.below_nil, relative_nil]
  rfl

theorem shallow_files (prune : Text → Bool) (root : Path) : Job.Shallow (files prune root) :=
  shallow_overFiles (harmless_pure Prod.mk) prune root

theorem files_explored {g g' : Progress} {answers : List (Path × Text)}
    (ran : files prune root g = .ok answers g') :
    ∃ all, answers = all.map (fun x => (root.below x, relative x)) ∧
      Explored g.store prune root (fun _ => True) g g' all := by
  rw [files_apply] at ran
  obtain ⟨home, located, inside⟩ := locate_of_visit ran
  rw [Path.below_nil] at located
  obtain ⟨all, eq, explored⟩ := visit_explored Prod.mk located (entered_nil inside)
    (reaches_of_locate located inside) _ rfl ran
  exact ⟨all, eq, explored.congr (by simp)⟩

theorem files_listings {g g' : Progress} {answers : List (Path × Text)}
    (ran : files prune root g = .ok answers g') :
    ∃ home new, g.store.locate root = .ok home ∧ g'.journal = g.journal ++ new ∧
      ∀ place ∈ new.listings, ∃ names, Entered g.store prune home names ∧ place = home ++ names := by
  obtain ⟨home, ⟨new, all, toured⟩, found⟩ := overFiles_tours (harmless_pure Prod.mk) prune root g
  have journal := toured.journal
  rw [show overFiles prune (fun p rel => pure (p, rel)) root g = .ok answers g' from ran] at journal
  refine ⟨home, new, found answers g' ran, journal, ?_⟩
  intro place member
  rw [toured.listings] at member
  obtain ⟨names, inAll, rfl⟩ := List.mem_map.1 member
  exact ⟨names, (toured.entered names inAll).1, rfl⟩

/-- A walk returns unless it meets a fault. Then it has answered what is found, each once and in the
order of the names on the way down, and has listed no directory to which only a link leads. -/
theorem files_eq_ok {spelling : Text} {g : Progress}
    (quiet : ¬ Job.Raises (files prune (.ofText spelling) g)) :
    ∃ answers g', files prune (.ofText spelling) g = .ok answers g' ∧
      (∀ p rel, (p, rel) ∈ answers ↔ ∃ names, IsFound g.store prune (.ofText spelling) names ∧
        rel = relative names ∧ p = .ofText (Path.joined spelling rel)) ∧
      answers.Pairwise (fun a b => a.2.splitOn '/' < b.2.splitOn '/') ∧
      g'.store = g.store ∧
      ∃ home new, g.store.locate (.ofText spelling) = .ok home ∧ g'.journal = g.journal ++ new ∧
        ∀ place ∈ new.listings,
          ∃ names, Entered g.store prune home names ∧ place = home ++ names := by
  obtain ⟨answers, g', ran⟩ := (shallow_files prune (.ofText spelling)).eq_ok quiet
  obtain ⟨all, rfl, explored⟩ := files_explored ran
  have complete : ∀ names, names ∈ all ↔ IsFound g.store prune (.ofText spelling) names := by
    intro names
    rw [explored.complete, and_true]
  refine ⟨_, g', ran, ?_, ?_, explored.store, files_listings ran⟩
  · intro p rel
    rw [List.mem_map]
    constructor
    · intro given
      obtain ⟨names, member, eq⟩ := given
      obtain ⟨rfl, rfl⟩ := Prod.mk.inj eq
      have h := (complete names).1 member
      exact ⟨names, h, rfl, (Path.ofText_joined spelling h.named).symm⟩
    · intro given
      obtain ⟨names, h, rfl, rfl⟩ := given
      exact ⟨names, (complete names).2 h, by rw [Path.ofText_joined spelling h.named]⟩
  · rw [List.pairwise_map]
    refine explored.ordered.imp_of_mem ?_
    intro a b inA inB before
    rw [splitOn_relative ((complete a).1 inA).named, splitOn_relative ((complete b).1 inB).named]
    exact before

def linkedTree : Store where
  base := []
  nodes :=
    [([⟨"t", by decide⟩], .directory), ([⟨"t", by decide⟩, ⟨"d", by decide⟩], .directory),
      ([⟨"t", by decide⟩, ⟨"d", by decide⟩, ⟨"x", by decide⟩], .file []),
      ([⟨"t", by decide⟩, ⟨"d.c", by decide⟩], .file []),
      ([⟨"t", by decide⟩, ⟨"l", by decide⟩], .link "d"),
      ([⟨"t", by decide⟩, ⟨"m", by decide⟩], .link "l/x"),
      ([⟨"t", by decide⟩, ⟨"p", by decide⟩], .directory),
      ([⟨"t", by decide⟩, ⟨"p", by decide⟩, ⟨"y", by decide⟩], .file [])]

/-- In the order of the texts alone, `d.c` would come before `d/x`. -/
theorem files_eq_ok_linkedTree :
    let prune : Text → Bool := fun rel => rel = "p".toList
    let answers : List (Path × Text) :=
      [(.ofText "t/d/x", "d/x"), (.ofText "t/d.c", "d.c"), (.ofText "t/m", "m")]
    let g' := Job.progressOf (files prune (.ofText "./t//") ⟨linkedTree, []⟩)
    files prune (.ofText "./t//") ⟨linkedTree, []⟩ = .ok answers g' ∧
      (∀ p rel, (p, rel) ∈ answers ↔ ∃ names, IsFound linkedTree prune (.ofText "./t//") names ∧
        rel = relative names ∧ p = .ofText (Path.joined "./t//" rel)) ∧
      answers.Pairwise (fun a b => a.2.splitOn '/' < b.2.splitOn '/') := by
  intro prune answers g'
  have ran : files prune (.ofText "./t//") ⟨linkedTree, []⟩ = .ok answers g' := by decide +kernel
  obtain ⟨answers', g₂, ran', complete, ordered, _⟩ := files_eq_ok (Job.not_raises ran)
  rw [ran] at ran'
  cases ran'
  exact ⟨ran, complete, ordered⟩

end LicenseHeaders.Traversal
