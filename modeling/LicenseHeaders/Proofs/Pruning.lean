import LicenseHeaders.Proofs.Finding

/-!
Pruning. In a store that stays as it is, a walk that prunes answers what the same walk would answer
without, less the files in pruned directories. The files right below the root are answered in any
case, since the root itself is never pruned. It takes no more than that everything below a pruned
directory is pruned as well. Beginnings of names are like that, wherever they end; so the candidates
of a run are those files of the whole tree whose own directory is not excluded.
-/
namespace LicenseHeaders

namespace Traversal
open Store

/-- Below a pruned directory every directory is pruned. -/
def Lasting (prune : Text → Bool) : Prop :=
  ∀ names more, prune (relative names) = true → prune (relative (names ++ more)) = true

def comesTo (prune : Text → Bool) (rel : Text) : Bool :=
  Relative.directory rel = [] || !prune (Relative.directory rel)

/-- A part of a walk ends with these answers, and leaves the store as it is. -/
def EndsWith {α : Type} (s : Store) (answers : List α)
    (r : EStateM.Result Fault Progress (List α)) : Prop :=
  ∃ g, r = .ok answers g ∧ g.store = s

variable {α : Type} {s : Store} {prune : Text → Bool} {root : Path} {home names : Location}

theorem comesTo_relative (name : Name) (free : names = [] ∨ prune (relative names) = false) :
    comesTo prune (relative (names ++ [name])) = true := by
  rw [comesTo, directory_relative]
  rcases free with rfl | kept
  · simp
  · simp [kept]

theorem not_comesTo (lasting : Lasting prune) (below : names ≠ [])
    (pruned : prune (relative names) = true) (more : Location) (name : Name) :
    comesTo prune (relative (names ++ more ++ [name])) = false := by
  have inner : relative (names ++ more) ≠ [] := relative_ne_nil (by simp [below])
  rw [comesTo, directory_relative, lasting names more pruned]
  simp [inner]

theorem EndsWith.cons {act : Path → Text → Job α} {enter : Path → Text → Job (List α)}
    {directory : Path} {rel : Text} {entry : Entry} {rest : List Entry} {now later : List α}
    {g : Progress} (first : EndsWith s now (visitEntry prune act enter directory rel entry g))
    (second : ∀ g', g'.store = s →
      EndsWith s later (visitEntries prune act enter directory rel rest g')) :
    EndsWith s (now ++ later) (visitEntries prune act enter directory rel (entry :: rest) g) := by
  obtain ⟨between, visited, same⟩ := first
  obtain ⟨g', visited', same'⟩ := second between same
  rw [visitEntries_cons_apply, visited]
  dsimp only
  rw [visited']
  exact ⟨g', rfl, same'⟩

/-- The files among these to which the walk comes, each with what it answers for them. -/
def answered (prune : Text → Bool) (answer : Path → Text → α) (found : List (Path × Text)) :
    List α :=
  (found.filter fun file => comesTo prune file.2).map fun file => answer file.1 file.2

theorem answered_append (answer : Path → Text → α) (found more : List (Path × Text)) :
    answered prune answer (found ++ more) =
      answered prune answer found ++ answered prune answer more := by
  simp [answered]

section Walk

variable (answer : Path → Text → α) {g g' g₂ : Progress} {found : List (Path × Text)}
variable (lasting : Lasting prune) (located : s.locate root = .ok home)
variable (down : s.Descends home names)
include lasting located down

theorem answered_below (below : names ≠ []) (pruned : prune (relative names) = true) (depth : Nat)
    (current : g.store = s)
    (ran : visit (fun _ => false) (fun p rel => pure (p, rel)) depth (root.below names)
      (relative names) g = .ok found g') :
    answered prune answer found = [] ∧ g'.store = s := by
  have inside : s.IsDirectory home := by simpa using down [] List.nil_prefix
  have entered : Entered s (fun _ => false) home names := ⟨down, fun _ _ _ => rfl⟩
  obtain ⟨all, rfl, explored⟩ := visit_explored Prod.mk located entered
    (reaches_of_locate located inside) depth current ran
  refine ⟨?_, explored.store.trans current⟩
  rw [answered, List.map_eq_nil_iff, List.filter_eq_nil_iff]
  intro file member
  obtain ⟨x, inAll, rfl⟩ := List.mem_map.1 member
  obtain ⟨isFound, under⟩ := (explored.complete x).1 inAll
  have tip := isFound.tip located
  obtain ⟨above, name, rfl⟩ := tip.concat
  obtain ⟨more, rfl⟩ : names <+: above := by simpa using tip.enters down.inside under
  rw [not_comesTo lasting below pruned]
  simp

variable (free : names = [] ∨ prune (relative names) = false)
variable (current : g.store = s) (current₂ : g₂.store = s)
include free current current₂

theorem visitEntry_prunes {depth : Nat} {name : Name} {node : Node}
    (held : s.get? (home ++ names ++ [name]) = some node)
    (enters : s.Descends home (names ++ [name]) → prune (relative (names ++ [name])) = false →
      visit (fun _ => false) (fun p rel => pure (p, rel)) depth (root.below (names ++ [name]))
        (relative (names ++ [name])) g = .ok found g' →
      g'.store = s ∧ EndsWith s (answered prune answer found)
        (visit prune (fun p rel => pure (answer p rel)) depth (root.below (names ++ [name]))
          (relative (names ++ [name])) g₂))
    (ran : visitEntry (fun _ => false) (fun p rel => pure (p, rel))
      (visit (fun _ => false) (fun p rel => pure (p, rel)) depth) (root.below names)
      (relative names) ⟨name, node.kind⟩ g = .ok found g') :
    g'.store = s ∧ EndsWith s (answered prune answer found)
      (visitEntry prune (fun p rel => pure (answer p rel))
        (visit prune (fun p rel => pure (answer p rel)) depth) (root.below names) (relative names)
        ⟨name, node.kind⟩ g₂) := by
  have comes : answered prune answer
      [(root.below (names ++ [name]), relative (names ++ [name]))] =
      [answer (root.below (names ++ [name])) (relative (names ++ [name]))] := by
    simp [answered, comesTo_relative name free]
  cases node with
  | directory =>
    have down' : s.Descends home (names ++ [name]) := descends_concat.2 ⟨down, held⟩
    rw [Node.kind, visitEntry_directory, if_neg Bool.false_ne_true] at ran
    rw [Node.kind, visitEntry_directory]
    split
    · rename_i pruned
      obtain ⟨none, same⟩ := answered_below answer lasting located down' (by simp) pruned depth
        current ran
      rw [none]
      exact ⟨same, _, rfl, current₂⟩
    · rename_i kept
      exact enters down' (by simpa using kept) ran
  | file contents =>
    obtain ⟨_, acted, rfl⟩ := visitEntry_file_eq_ok ran
    cases acted
    rw [Node.kind, visitEntry_file, comes]
    exact ⟨current, _, rfl, current₂⟩
  | link target =>
    rw [Node.kind, visitEntry_link, current₂]
    rcases visitEntry_link_eq_ok ran with ⟨_, leads, acted, rfl⟩ | ⟨astray, only, rfl, rfl⟩
    · cases acted
      rw [current] at leads
      rw [leads, comes]
      exact ⟨current, _, rfl, current₂⟩
    · rw [current] at astray only
      refine ⟨current, g₂, ?_, current₂⟩
      cases shown : s.kindAt (root.below (names ++ [name])) with
      | error cause =>
        obtain rfl := only cause shown
        rfl
      | ok kind =>
        cases kind with
        | file => exact absurd shown astray
        | directory | link => rfl

theorem visitEntries_prunes {depth : Nat}
    (enters : ∀ name g g' g₂ found, g.store = s → g₂.store = s →
      s.Descends home (names ++ [name]) → prune (relative (names ++ [name])) = false →
      visit (fun _ => false) (fun p rel => pure (p, rel)) depth (root.below (names ++ [name]))
        (relative (names ++ [name])) g = .ok found g' →
      g'.store = s ∧ EndsWith s (answered prune answer found)
        (visit prune (fun p rel => pure (answer p rel)) depth (root.below (names ++ [name]))
          (relative (names ++ [name])) g₂))
    (entries : List Entry)
    (held : ∀ entry ∈ entries, ∃ node, s.get? (home ++ names ++ [entry.name]) = some node ∧
      entry.kind = node.kind)
    (ran : visitEntries (fun _ => false) (fun p rel => pure (p, rel))
      (visit (fun _ => false) (fun p rel => pure (p, rel)) depth) (root.below names)
      (relative names) entries g = .ok found g') :
    g'.store = s ∧ EndsWith s (answered prune answer found)
      (visitEntries prune (fun p rel => pure (answer p rel))
        (visit prune (fun p rel => pure (answer p rel)) depth) (root.below names) (relative names)
        entries g₂) := by
  induction entries generalizing g g₂ found with
  | nil =>
    cases ran
    exact ⟨current, g₂, rfl, current₂⟩
  | cons entry rest ih =>
    obtain ⟨node, there, kind⟩ := held entry (List.mem_cons_self ..)
    obtain ⟨name, kind'⟩ := entry
    obtain rfl : kind' = node.kind := kind
    obtain ⟨now, between, later, first, second, rfl⟩ := visitEntries_cons_eq_ok ran
    obtain ⟨same, answers⟩ := visitEntry_prunes answer lasting located down free current current₂
      there (enters name g between g₂ now current current₂) first
    have others := fun other member => held other (List.mem_cons_of_mem _ member)
    rw [answered_append]
    exact ⟨(ih same current₂ others second).1,
      answers.cons fun g' current' => (ih same current' others second).2⟩

omit free current current₂ in
theorem visit_prunes (depth : Nat) (free : names = [] ∨ prune (relative names) = false)
    (current : g.store = s) (current₂ : g₂.store = s)
    (ran : visit (fun _ => false) (fun p rel => pure (p, rel)) depth (root.below names)
      (relative names) g = .ok found g') :
    g'.store = s ∧ EndsWith s (answered prune answer found)
      (visit prune (fun p rel => pure (answer p rel)) depth (root.below names) (relative names)
        g₂) := by
  induction depth generalizing names g g' g₂ found with
  | zero => cases ran
  | succ depth ih =>
    have inside : s.IsDirectory home := by simpa using down [] List.nil_prefix
    obtain ⟨spent, reached⟩ := reaches_of_locate located inside
    rw [visit_apply] at ran ⊢
    cases listed : Job.list (root.below names) g with
    | error =>
      rw [listed] at ran
      cases ran
    | ok entries between =>
    rw [listed] at ran
    obtain ⟨place, arrived, isDirectory, rfl, rfl⟩ := Job.list_eq_ok listed
    rw [current] at arrived isDirectory
    have plain := plain_of_locate arrived isDirectory (by simp [Node.kind])
    have listed₂ := Job.list_of_locate (g := g₂) plain (current₂.symm ▸ arrived)
      (current₂.symm ▸ isDirectory)
    obtain ⟨_, reached'⟩ := reaches_of_locate arrived isDirectory
    obtain ⟨_, rfl⟩ := reached'.unique (reached.below down)
    rw [listed₂, current₂]
    dsimp only at ran ⊢
    rw [current] at ran
    exact visitEntries_prunes answer lasting located down free rfl rfl
      (fun name g g' g₂ found current current₂ down kept ran =>
        ih down (.inr kept) current current₂ ran)
      _ (fun entry member => mem_entriesIn.1 member) ran

end Walk

end Traversal

theorem Config.lasting_excludes (c : Config) : Traversal.Lasting c.excludes :=
  fun _ more excluded => c.excludes_below excluded more

theorem Config.excludes_ofDraft {d : Draft} {rel : Text} :
    (Config.ofDraft d).excludes rel = false ↔
      ∀ entry ∈ d.excluded, ¬ Beginning.normal entry <+: rel := by
  rw [← Bool.not_eq_true, excludes_iff]
  simp [ofDraft]

namespace Insertion
open Traversal

/-- Of all these files the ones that have a header and lie in no excluded directory. -/
def chosen (c : Config) (found : List (Path × Text)) : List (Path × Text × Header) :=
  (found.filter fun file => !c.excludes (Relative.directory file.2)).filterMap
    fun file => (c.header? file.2).map (file.1, file.2, ·)

theorem mem_chosen {c : Config} {found : List (Path × Text)} {p : Path} {rel : Text}
    {header : Header} : (p, rel, header) ∈ chosen c found ↔ (p, rel) ∈ found ∧
      c.excludes (Relative.directory rel) = false ∧ c.header? rel = some header := by
  simp only [chosen, List.mem_filterMap, List.mem_filter, Option.map_eq_some_iff,
    Bool.not_eq_true']
  constructor
  · intro given
    obtain ⟨file, ⟨member, included⟩, header', known, same⟩ := given
    cases same
    exact ⟨member, included, known⟩
  · intro given
    obtain ⟨member, included, known⟩ := given
    exact ⟨(p, rel), ⟨member, included⟩, header, known, rfl⟩

/-- What is eligible among the files to which the walk comes is what is chosen from all. In an
excluded directory only the files right below the root are left for the second test to refuse. -/
theorem eligible_of_answered (c : Config) (found : List (Path × Text)) :
    (answered c.excludes (fun p rel => (c.eligible? rel).map (p, rel, ·)) found).filterMap id =
      chosen c found := by
  unfold answered chosen
  rw [List.filterMap_map, List.filterMap_filter, List.filterMap_filter]
  refine List.filterMap_congr fun file _ => ?_
  unfold Config.eligible?
  by_cases excluded : c.excludes (Relative.directory file.2) = true
  · simp [excluded]
  · simp [excluded, comesTo]

theorem candidates_apply (c : Config) (g : Progress) :
    candidates c g =
      match visit c.excludes (fun p rel => pure ((c.eligible? rel).map (p, rel, ·)))
        (g.store.directoryCount + 1) (c.root.below []) (relative []) g with
      | .ok found g' => .ok (found.filterMap id) g'
      | .error fault g' => .error fault g' := by
  unfold candidates overFiles
  rw [Path.below_nil, relative_nil]
  simp only [Job.bind_apply, Job.store_apply]
  generalize visit c.excludes _ (g.store.directoryCount + 1) c.root [] g = result
  cases result <;> rfl

/-- Leaving out excluded directories on the way and looking at each file of the whole tree by itself
come to the same, whatever beginnings and whatever registry are given. Both return unless the walk
over the whole tree meets a fault. -/
theorem candidates_eq_chosen {d : Draft} {g : Progress}
    (quiet : ¬ Job.Raises (files (fun _ => false) d.root g)) :
    ∃ found g' g₂, files (fun _ => false) d.root g = .ok found g' ∧
      candidates (.ofDraft d) g = .ok (chosen (.ofDraft d) found) g₂ ∧ g₂.store = g.store ∧
      ∀ p rel header, (p, rel, header) ∈ chosen (.ofDraft d) found ↔ (p, rel) ∈ found ∧
        (∀ entry ∈ d.excluded, ¬ Beginning.normal entry <+: Relative.directory rel) ∧
        (Config.ofDraft d).header? rel = some header := by
  obtain ⟨found, g', returned⟩ := (shallow_files (fun _ => false) d.root).eq_ok quiet
  have ran := returned
  rw [files_apply] at ran
  obtain ⟨home, located, inside⟩ := locate_of_visit ran
  rw [Path.below_nil] at located
  obtain ⟨_, g₂, walked, same⟩ := visit_prunes
    (fun p rel => ((Config.ofDraft d).eligible? rel).map (p, rel, ·))
    (Config.ofDraft d).lasting_excludes located (Store.descends_nil.2 inside) _ (.inl rfl) rfl rfl ran
  refine ⟨found, g', g₂, returned, ?_, same, ?_⟩
  · rw [candidates_apply, show (Config.ofDraft d).root = d.root from rfl, walked,
      ← eligible_of_answered]
  · intro p rel header
    rw [mem_chosen, Config.excludes_ofDraft]

def branchedTree : Store where
  base := []
  nodes :=
    [([⟨"a.h", by decide⟩], .file []),
      ([⟨"ab", by decide⟩], .directory), ([⟨"ab", by decide⟩, ⟨"x.c", by decide⟩], .file []),
      ([⟨"abc", by decide⟩], .directory), ([⟨"abc", by decide⟩, ⟨"y.c", by decide⟩], .file []),
      ([⟨"b", by decide⟩], .directory), ([⟨"b", by decide⟩, ⟨"c", by decide⟩], .directory),
      ([⟨"b", by decide⟩, ⟨"c", by decide⟩, ⟨"z.c", by decide⟩], .file []),
      ([⟨"b", by decide⟩, ⟨"f.c", by decide⟩], .file []),
      ([⟨"b", by decide⟩, ⟨"g.md", by decide⟩], .file [])]

theorem candidates_eq_chosen_branchedTree :
    let d : Draft := { license := "L", excluded := ["./ab/", "b/c"] }
    let found : List (Path × Text) :=
      [(.ofText "a.h", "a.h"), (.ofText "ab/x.c", "ab/x.c"), (.ofText "abc/y.c", "abc/y.c"),
        (.ofText "b/c/z.c", "b/c/z.c"), (.ofText "b/f.c", "b/f.c"), (.ofText "b/g.md", "b/g.md")]
    let header : Header := ⟨"L", []⟩
    let left : List (Path × Text × Header) :=
      [(.ofText "a.h", "a.h", header), (.ofText "b/f.c", "b/f.c", header)]
    (∃ g, files (fun _ => false) d.root ⟨branchedTree, []⟩ = .ok found g) ∧
      ∃ g₂, candidates (.ofDraft d) ⟨branchedTree, []⟩ = .ok left g₂ ∧ g₂.store = branchedTree := by
  intro d found header left
  have ran : files (fun _ => false) d.root ⟨branchedTree, []⟩ =
      .ok found (Job.progressOf (files (fun _ => false) d.root ⟨branchedTree, []⟩)) := by
    decide +kernel
  obtain ⟨found', g', g₂, ran', eq, same, _⟩ := candidates_eq_chosen (Job.not_raises ran)
  rw [ran] at ran'
  cases ran'
  have few : chosen (.ofDraft d) found = left := by decide +kernel
  rw [few] at eq
  exact ⟨⟨_, ran⟩, g₂, eq, same⟩

end Insertion

end LicenseHeaders
