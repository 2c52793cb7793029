import Mathlib.Data.List.Dedup
import Mathlib.Data.List.Sort
import LicenseHeaders.Proofs.Batch

/-!
The walk of a run in step with the batch. At every moment the candidates that have been dealt with
are the first ones in order, wherever the walk stands and however it ends; so a run that ends well
has dealt with all of them.
-/
namespace LicenseHeaders.Insertion
open Store Traversal

variable {s : Store} {c : Config} {refusals : Refusals}

namespace IsCandidate

variable {x : Candidate} {spent : Nat} {home : Location}

theorem tip (h : IsCandidate s c x) (reached : Reaches s c.root spent home) :
    Tip s home x.names := by
  obtain ⟨place, down⟩ := h.from_root reached
  exact ⟨h.named, down, _, place ▸ h.file, by simp [Node.kind]⟩

end IsCandidate

/-- The candidates of a kind, in order, up to one of them. -/
structure Initial (s : Store) (c : Config) (kind : Candidate → Prop) (seen : List Candidate) :
    Prop where
  members : ∀ x ∈ seen, IsCandidate s c x ∧ kind x
  ordered : seen.Pairwise Candidate.Earlier
  first : ∀ x, IsCandidate s c x → kind x → x ∈ seen ∨ ∀ y ∈ seen, y.Earlier x

structure Whole (s : Store) (c : Config) (kind : Candidate → Prop) (seen : List Candidate) :
    Prop where
  members : ∀ x, x ∈ seen ↔ IsCandidate s c x ∧ kind x
  ordered : seen.Pairwise Candidate.Earlier

theorem Whole.initial {kind : Candidate → Prop} {seen : List Candidate}
    (h : Whole s c kind seen) : Initial s c kind seen := by
  refine ⟨fun x member => (h.members x).1 member, h.ordered, ?_⟩
  intro x candidate of
  exact .inl ((h.members x).2 ⟨candidate, of⟩)

theorem initial_nil (s : Store) (c : Config) (kind : Candidate → Prop) : Initial s c kind [] := by
  constructor
  · intro x member
    cases member
  · exact .nil
  · intro x _ _
    right
    intro y member
    cases member

theorem Initial.congr {kind kind' : Candidate → Prop} {seen : List Candidate}
    (h : Initial s c kind seen) (same : ∀ x, IsCandidate s c x → (kind x ↔ kind' x)) :
    Initial s c kind' seen := by
  refine ⟨?_, h.ordered, ?_⟩
  · intro x member
    obtain ⟨candidate, of⟩ := h.members x member
    exact ⟨candidate, (same x candidate).1 of⟩
  · intro x candidate of
    exact h.first x candidate ((same x candidate).2 of)

theorem Whole.congr {kind kind' : Candidate → Prop} {seen : List Candidate}
    (h : Whole s c kind seen) (same : ∀ x, IsCandidate s c x → (kind x ↔ kind' x)) :
    Whole s c kind' seen := by
  refine ⟨?_, h.ordered⟩
  intro x
  rw [h.members]
  constructor
  · intro given
    obtain ⟨candidate, of⟩ := given
    exact ⟨candidate, (same x candidate).1 of⟩
  · intro given
    obtain ⟨candidate, of⟩ := given
    exact ⟨candidate, (same x candidate).2 of⟩

section Append

variable {kind kind' : Candidate → Prop} {seen more : List Candidate}
variable (before : ∀ x y, kind x → kind' y → x.Earlier y)
include before

theorem Initial.left (h : Initial s c kind seen) :
    Initial s c (fun x => kind x ∨ kind' x) seen := by
  refine ⟨?_, h.ordered, ?_⟩
  · intro x member
    obtain ⟨candidate, of⟩ := h.members x member
    exact ⟨candidate, .inl of⟩
  · intro x candidate given
    rcases given with of | of
    · exact h.first x candidate of
    · right
      intro y member
      exact before y x (h.members y member).2 of

theorem Whole.append_initial (h : Whole s c kind seen) (h' : Initial s c kind' more) :
    Initial s c (fun x => kind x ∨ kind' x) (seen ++ more) := by
  refine ⟨?_, List.pairwise_append.2 ⟨h.ordered, h'.ordered, ?_⟩, ?_⟩
  · intro x member
    rcases List.mem_append.1 member with early | late
    · obtain ⟨candidate, of⟩ := (h.members x).1 early
      exact ⟨candidate, .inl of⟩
    · obtain ⟨candidate, of⟩ := h'.members x late
      exact ⟨candidate, .inr of⟩
  · intro x early y late
    exact before x y ((h.members x).1 early).2 (h'.members y late).2
  · intro x candidate given
    rcases given with of | of
    · exact .inl (List.mem_append_left _ ((h.members x).2 ⟨candidate, of⟩))
    · rcases h'.first x candidate of with there | after
      · exact .inl (List.mem_append_right _ there)
      · right
        intro y member
        rcases List.mem_append.1 member with early | late
        · exact before y x ((h.members y).1 early).2 of
        · exact after y late

theorem Whole.append (h : Whole s c kind seen) (h' : Whole s c kind' more) :
    Whole s c (fun x => kind x ∨ kind' x) (seen ++ more) := by
  refine ⟨?_, (h.append_initial before h'.initial).ordered⟩
  intro x
  rw [List.mem_append, h.members, h'.members]
  constructor
  · intro given
    rcases given with ⟨candidate, of⟩ | ⟨candidate, of⟩
    · exact ⟨candidate, .inl of⟩
    · exact ⟨candidate, .inr of⟩
  · intro given
    obtain ⟨candidate, of | of⟩ := given
    · exact .inl ⟨candidate, of⟩
    · exact .inr ⟨candidate, of⟩

end Append

/-- A part of the walk has dealt with the candidates of a kind, or with the first of them. -/
def Handled (s : Store) (c : Config) (refusals : Refusals) (kind : Candidate → Prop)
    (done : List Candidate) : EStateM.Result Fault Progress (List (Option Outcome)) → Prop
  | .ok outcomes g => ∃ seen, Whole s c kind seen ∧
    outcomes.filterMap id = seen.map (·.outcome c refusals) ∧
    Underway s c refusals (done ++ seen) g
  | .error _ g => ∃ seen, Initial s c kind seen ∧ Underway s c refusals (done ++ seen) g

theorem Handled.congr {kind kind' : Candidate → Prop} {done : List Candidate}
    {result : EStateM.Result Fault Progress (List (Option Outcome))}
    (h : Handled s c refusals kind done result)
    (same : ∀ x, IsCandidate s c x → (kind x ↔ kind' x)) : Handled s c refusals kind' done result := by
  cases result with
  | ok outcomes g =>
    obtain ⟨seen, whole, listed, underway⟩ := h
    exact ⟨seen, whole.congr same, listed, underway⟩
  | error fault g =>
    obtain ⟨seen, initial, underway⟩ := h
    exact ⟨seen, initial.congr same, underway⟩

theorem handled_none {kind : Candidate → Prop} {done : List Candidate} {g : Progress}
    (h : Underway s c refusals done g) (none : ∀ x, IsCandidate s c x → ¬ kind x) :
    ∃ seen, Whole s c kind seen ∧ [] = seen.map (·.outcome c refusals) ∧
      Underway s c refusals (done ++ seen) g := by
  refine ⟨[], ⟨?_, .nil⟩, rfl, by rwa [List.append_nil]⟩
  intro x
  constructor
  · intro member
    cases member
  · intro given
    obtain ⟨candidate, of⟩ := given
    exact absurd of (none x candidate)

section Walk

variable {done : List Candidate} {g : Progress} {spent : Nat} {home directory : Location}
variable {enter : Path → Text → Job (List (Option Outcome))}
variable (reached : Reaches s c.root spent home)
include reached

theorem handled_directory (h : Underway s c refusals done g) {name : Name}
    (inside : s.IsDirectory (home ++ directory ++ [name]))
    (entered : Handled s c refusals (directory ++ [name] <+: ·.names) done
      (enter (c.root.below (directory ++ [name])) (relative (directory ++ [name])) g)) :
    Handled s c refusals (directory ++ [name] <+: ·.names) done
      (visitEntry c.excludes (settle c refusals) enter (c.root.below directory)
        (relative directory) ⟨name, .directory⟩ g) := by
  rw [visitEntry_directory]
  split
  · rename_i excluded
    apply handled_none (h.record _ (by simp))
    intro x candidate under
    rw [List.append_assoc] at inside
    obtain ⟨rest, eq⟩ := (candidate.tip reached).enters inside under
    have excluded' := Config.excludes_below excluded rest
    rw [eq, Config.excludes_iff] at excluded'
    obtain ⟨start, member, begins⟩ := excluded'
    exact candidate.included start member begins
  · exact entered

theorem listing_eq (h : Underway s c refusals done g)
    (fresh : ∀ x ∈ done, Before x.names directory) (name : Name) :
    g.store.get? (home ++ directory ++ [name]) = s.get? (home ++ directory ++ [name]) := by
  apply h.settled.untouched _
  intro x member _
  have place := ((h.members x member).from_root reached).1
  have above := (fresh x member).not_begins
  constructor
  · intro same
    rw [place, List.append_assoc] at same
    apply above
    rw [← List.append_cancel_left same]
    exact List.prefix_append _ _
  · intro given
    obtain ⟨directory', name', longer, _, own, other⟩ := given
    obtain ⟨rfl, _⟩ := List.append_inj' other rfl
    rw [place, List.append_assoc] at own
    apply above
    rw [List.append_cancel_left own]
    exact List.prefix_append _ _

variable (noLinks : ∀ place target, s.get? place ≠ some (.link target))
variable (spared : Spared s c refusals) (found : s.locate c.root = .ok home)
include noLinks spared found

theorem handled_file (h : Underway s c refusals done g) (down : s.Descends home directory)
    {name : Name} {contents : Bytes}
    (held : s.get? (home ++ directory ++ [name]) = some (.file contents))
    (fresh : ∀ x ∈ done, Before x.names (directory ++ [name])) :
    Handled s c refusals (directory ++ [name] <+: ·.names) done
      (visitEntry c.excludes (settle c refusals) enter (c.root.below directory)
        (relative directory) ⟨name, .file⟩ g) := by
  have outside : ¬ s.IsDirectory (home ++ (directory ++ [name])) := by
    rw [← List.append_assoc, IsDirectory, held]
    simp
  rw [visitEntry_file]
  cases eligible : c.eligible? (relative (directory ++ [name])) with
  | none =>
    have ends : settle c refusals (c.root.below (directory ++ [name]))
        (relative (directory ++ [name])) g = .ok none g := by
      simp [settle, eligible]
    rw [ends]
    apply handled_none h
    intro x candidate under
    have rules := candidate.eligible
    rw [(candidate.tip reached).names_eq outside under, eligible] at rules
    cases rules
  | some header =>
    let x : Candidate := ⟨directory ++ [name], home ++ directory ++ [name], contents, header⟩
    have candidate : IsCandidate s c x := .of_eligible found down held eligible
    have step := h.settle candidate fresh reached noLinks spared
    rw [show x.path c = c.root.below (directory ++ [name]) from rfl] at step
    generalize settle c refusals (c.root.below (directory ++ [name]))
      (relative (directory ++ [name])) g = result at step ⊢
    cases result with
    | error fault g' => exact ⟨[], initial_nil s c _, by rwa [List.append_nil]⟩
    | ok now g' =>
      obtain ⟨rfl, underway⟩ := step
      refine ⟨[x], ⟨?_, List.pairwise_singleton _ _⟩, rfl, underway⟩
      intro y
      rw [List.mem_singleton]
      constructor
      · intro same
        subst same
        exact ⟨candidate, List.prefix_refl _⟩
      · intro given
        obtain ⟨candidate', under⟩ := given
        exact candidate'.eq_of_names candidate ((candidate'.tip reached).names_eq outside under)

theorem handled_entry (h : Underway s c refusals done g) (down : s.Descends home directory)
    {name : Name} {node : Node} (held : s.get? (home ++ directory ++ [name]) = some node)
    (fresh : ∀ x ∈ done, Before x.names (directory ++ [name]))
    (entered : s.Descends home (directory ++ [name]) →
      Handled s c refusals (directory ++ [name] <+: ·.names) done
        (enter (c.root.below (directory ++ [name])) (relative (directory ++ [name])) g)) :
    Handled s c refusals (directory ++ [name] <+: ·.names) done
      (visitEntry c.excludes (settle c refusals) enter (c.root.below directory)
        (relative directory) ⟨name, node.kind⟩ g) := by
  cases node with
  | file contents => exact handled_file reached noLinks spared found h down held fresh
  | directory =>
    have inside := descends_concat.2 ⟨down, held⟩
    exact handled_directory reached h held (entered inside)
  | link target => exact absurd held (noLinks _ target)

theorem handled_entries (down : s.Descends home directory)
    (entered : ∀ name done g, Underway s c refusals done g →
      (∀ x ∈ done, Before x.names (directory ++ [name])) → s.Descends home (directory ++ [name]) →
      Handled s c refusals (directory ++ [name] <+: ·.names) done
        (enter (c.root.below (directory ++ [name])) (relative (directory ++ [name])) g))
    (entries : List Entry) (sorted : entries.Pairwise fun a b => Store.Earlier a.name b.name)
    (held : ∀ entry ∈ entries, ∃ node, s.get? (home ++ directory ++ [entry.name]) = some node ∧
      entry.kind = node.kind)
    (h : Underway s c refusals done g)
    (fresh : ∀ entry ∈ entries, ∀ x ∈ done, Before x.names (directory ++ [entry.name])) :
    Handled s c refusals (fun x => ∃ entry ∈ entries, directory ++ [entry.name] <+: x.names) done
      (visitEntries c.excludes (settle c refusals) enter (c.root.below directory)
        (relative directory) entries g) := by
  induction entries generalizing done g with
  | nil => exact handled_none h (by simp)
  | cons entry rest ih =>
    obtain ⟨before, sorted⟩ := List.pairwise_cons.1 sorted
    have now : Handled s c refusals (directory ++ [entry.name] <+: ·.names) done
        (visitEntry c.excludes (settle c refusals) enter (c.root.below directory)
          (relative directory) entry g) := by
      obtain ⟨node, held, kind⟩ := held entry (by simp)
      obtain ⟨name, kind'⟩ := entry
      obtain rfl : kind' = node.kind := kind
      have fresh := fresh _ (List.mem_cons_self ..)
      exact handled_entry reached noLinks spared found h down held fresh
        (entered name done g h fresh)
    have order : ∀ x y : Candidate, directory ++ [entry.name] <+: x.names →
        (∃ other ∈ rest, directory ++ [other.name] <+: y.names) → x.Earlier y := by
      intro x y first given
      obtain ⟨other, member, second⟩ := given
      exact before_of_names first second (before other member)
    have split : ∀ x, IsCandidate s c x → ((directory ++ [entry.name] <+: x.names ∨
        ∃ other ∈ rest, directory ++ [other.name] <+: x.names) ↔
          ∃ other ∈ entry :: rest, directory ++ [other.name] <+: x.names) := by
      intro x _
      simp
    rw [visitEntries_cons_apply]
    generalize visitEntry c.excludes (settle c refusals) enter (c.root.below directory)
      (relative directory) entry g = result at now ⊢
    cases result with
    | error fault g' =>
      obtain ⟨seen, initial, underway⟩ := now
      exact ⟨seen, (initial.left order).congr split, underway⟩
    | ok outcomes g' =>
      obtain ⟨seen, whole, listed, underway⟩ := now
      have fresh' : ∀ other ∈ rest, ∀ x ∈ done ++ seen,
          Before x.names (directory ++ [other.name]) := by
        intro other member x early
        rcases List.mem_append.1 early with early | early
        · exact fresh other (List.mem_cons_of_mem _ member) x early
        · have own := ((whole.members x).1 early).2
          exact before_of_names own (List.prefix_refl _) (before other member)
      have later := ih sorted (fun other member => held other (List.mem_cons_of_mem _ member))
        underway fresh'
      dsimp only
      generalize visitEntries c.excludes (settle c refusals) enter (c.root.below directory)
        (relative directory) rest g' = result at later ⊢
      cases result with
      | error fault g'' =>
        obtain ⟨more, initial, underway⟩ := later
        refine ⟨seen ++ more, (whole.append_initial order initial).congr split, ?_⟩
        rwa [← List.append_assoc]
      | ok outcomes' g'' =>
        obtain ⟨more, whole', listed', underway⟩ := later
        refine ⟨seen ++ more, (whole.append order whole').congr split, ?_, ?_⟩
        · rw [List.filterMap_append, List.map_append, listed, listed']
        · rwa [← List.append_assoc]

theorem handled_visit (depth : Nat) (down : s.Descends home directory)
    (h : Underway s c refusals done g) (fresh : ∀ x ∈ done, Before x.names directory) :
    Handled s c refusals (directory <+: ·.names) done
      (visit c.excludes (settle c refusals) depth (c.root.below directory) (relative directory) g) := by
  induction depth generalizing directory done g with
  | zero => exact ⟨[], initial_nil s c _, by rwa [List.append_nil]⟩
  | succ depth ih =>
    rw [visit_apply]
    cases listed : Job.list (c.root.below directory) g with
    | error fault g' =>
      obtain rfl := Job.list_eq_error listed
      exact ⟨[], initial_nil s c _, by rwa [List.append_nil]⟩
    | ok entries g' =>
      obtain ⟨place, located, inside, rfl, rfl⟩ := Job.list_eq_ok listed
      obtain ⟨_, reached'⟩ := reaches_of_locate located inside
      obtain ⟨_, rfl⟩ := reached'.unique (h.reaches reached down)
      have same := listing_eq reached h fresh
      have entered : ∀ name done g, Underway s c refusals done g →
          (∀ x ∈ done, Before x.names (directory ++ [name])) → s.Descends home (directory ++ [name]) →
          Handled s c refusals (directory ++ [name] <+: ·.names) done
            (visit c.excludes (settle c refusals) depth (c.root.below (directory ++ [name]))
              (relative (directory ++ [name])) g) := by
        intro name done g h fresh down
        exact ih down h fresh
      have walked := handled_entries reached noLinks spared found down entered
        (g.store.entriesIn (home ++ directory)) (g.store.sorted_entriesIn _)
        (by
          intro entry member
          obtain ⟨node, held, kind⟩ := mem_entriesIn.1 member
          exact ⟨node, by rw [← same, held], kind⟩)
        (h.record (.listed (home ++ directory)) (by simp))
        (by
          intro entry _ x early
          exact (fresh x early).append [entry.name])
      apply walked.congr
      intro x candidate
      constructor
      · intro given
        obtain ⟨entry, _, under⟩ := given
        exact (List.prefix_append _ _).trans under
      · intro under
        have goesOn := (candidate.tip reached).enters down.inside under
        obtain ⟨name, node, under', held⟩ := (candidate.tip reached).next goesOn
        exact ⟨⟨name, node.kind⟩, mem_entriesIn.2 ⟨node, by rw [same, held], rfl⟩, under'⟩

end Walk

theorem exists_candidates (s : Store) (c : Config) :
    ∃ found : List Candidate, ∀ x, IsCandidate s c x → x ∈ found := by
  have among : ∀ nodes : List (Location × Node), ∃ found : List Candidate,
      ∀ x, IsCandidate s c x → (x.place, .file x.contents) ∈ nodes → x ∈ found := by
    intro nodes
    induction nodes with
    | nil => exact ⟨[], by simp⟩
    | cons entry rest ih =>
      obtain ⟨found, all⟩ := ih
      by_cases here : ∃ y, IsCandidate s c y ∧ y.place = entry.1
      · obtain ⟨y, candidate, place⟩ := here
        refine ⟨y :: found, ?_⟩
        intro x candidate' member
        rcases List.mem_cons.1 member with first | later
        · have same : y.place = x.place := by rw [place, ← first]
          rw [candidate.eq_of_place candidate' same]
          exact List.mem_cons_self ..
        · exact List.mem_cons_of_mem _ (all x candidate' later)
      · refine ⟨found, ?_⟩
        intro x candidate member
        rcases List.mem_cons.1 member with first | later
        · exact absurd ⟨x, candidate, by rw [← first]⟩ here
        · exact all x candidate later
  obtain ⟨found, all⟩ := among s.nodes
  refine ⟨found, ?_⟩
  intro x candidate
  have below : x.place ≠ [] := by
    obtain ⟨directory, name, names⟩ := candidate.concat
    obtain ⟨home, _, place, _⟩ := candidate.below
    rw [place, names]
    simp
  exact all x candidate (mem_of_get? below candidate.file)

theorem exists_batch (s : Store) (c : Config) : ∃ batch, IsBatch s c batch := by
  classical
  obtain ⟨found, all⟩ := exists_candidates s c
  have sorted := List.pairwise_insertionSort Candidate.UpTo
    (found.filter fun x => IsCandidate s c x).dedup
  have order := List.perm_insertionSort Candidate.UpTo
    (found.filter fun x => IsCandidate s c x).dedup
  have members : ∀ x, x ∈ (found.filter fun x => IsCandidate s c x).dedup.insertionSort
      Candidate.UpTo ↔ IsCandidate s c x := by
    intro x
    rw [List.mem_insertionSort, List.mem_dedup, List.mem_filter, decide_eq_true_iff]
    constructor
    · intro h
      exact h.2
    · intro candidate
      exact ⟨all x candidate, candidate⟩
  have distinct := order.nodup_iff.2 (List.nodup_dedup _)
  refine ⟨_, members, (sorted.and distinct).imp_of_mem ?_⟩
  intro x y inX inY upTo_ne
  rcases ((members x).1 inX).trichotomy ((members y).1 inY) with before | same | after
  · exact before
  · exact absurd same upTo_ne.2
  · exact absurd after upTo_ne.1

theorem Initial.extend {seen : List Candidate} (h : Initial s c (fun _ => True) seen) :
    ∃ batch, IsBatch s c batch ∧ seen <+: batch := by
  obtain ⟨all, complete, ordered⟩ := exists_batch s c
  refine ⟨seen ++ all.filter (· ∉ seen), ⟨?_, ?_⟩, List.prefix_append _ _⟩
  · intro x
    simp only [List.mem_append, List.mem_filter, complete, decide_eq_true_eq]
    constructor
    · intro given
      rcases given with early | ⟨candidate, _⟩
      · exact (h.members x early).1
      · exact candidate
    · intro candidate
      by_cases early : x ∈ seen
      · exact .inl early
      · exact .inr ⟨candidate, early⟩
  · refine List.pairwise_append.2 ⟨h.ordered, ordered.filter _, ?_⟩
    intro x early y late
    simp only [List.mem_filter, complete, decide_eq_true_eq] at late
    rcases h.first y late.1 trivial with early' | after
    · exact absurd early' late.2
    · exact after x early

theorem handled_root (refusals : Refusals)
    (noLinks : ∀ place target, s.get? place ≠ some (.link target)) (spared : Spared s c refusals) :
    Handled s c refusals (fun _ => True) []
      (visit c.excludes (settle c refusals) (s.directoryCount + 1) (c.root.below []) (relative [])
        ⟨s, []⟩) := by
  have start : Underway s c refusals [] ⟨s, []⟩ := by
    refine ⟨?_, Settled.start s c refusals, rfl⟩
    intro x member
    cases member
  by_cases there : ∃ home, s.locate c.root = .ok home ∧ s.IsDirectory home
  · obtain ⟨home, found, inside⟩ := there
    obtain ⟨_, reached⟩ := reaches_of_locate found inside
    have all := handled_visit reached noLinks spared found (s.directoryCount + 1)
      (descends_nil.2 inside) start (by simp)
    exact all.congr (by simp)
  · rw [visit_apply, Path.below_nil]
    cases listed : Job.list c.root ⟨s, []⟩ with
    | error fault g =>
      obtain rfl := Job.list_eq_error listed
      exact ⟨[], initial_nil s c _, start⟩
    | ok entries g =>
      obtain ⟨home, found, inside, _⟩ := Job.list_eq_ok listed
      exact absurd ⟨home, found, inside⟩ there

theorem run_underway (refusals : Refusals)
    (noLinks : ∀ place target, s.get? place ≠ some (.link target)) (spared : Spared s c refusals) :
    match run c refusals ⟨s, []⟩ with
    | .ok tally g => ∃ batch, IsBatch s c batch ∧
      tally = .ofOutcomes (batch.map (·.outcome c refusals)) ∧ Underway s c refusals batch g
    | .error _ g => ∃ batch seen, IsBatch s c batch ∧ seen <+: batch ∧
      Underway s c refusals seen g := by
  have walked := handled_root refusals noLinks spared
  rw [run_apply]
  dsimp only
  generalize visit c.excludes (settle c refusals) (s.directoryCount + 1) (c.root.below [])
    (relative []) ⟨s, []⟩ = result at walked ⊢
  cases result with
  | error fault g =>
    obtain ⟨seen, initial, underway⟩ := walked
    obtain ⟨batch, isBatch, first⟩ := initial.extend
    exact ⟨batch, seen, isBatch, first, underway⟩
  | ok outcomes g =>
    obtain ⟨batch, whole, listed, underway⟩ := walked
    refine ⟨batch, ⟨?_, whole.ordered⟩, ?_, ?_⟩
    · intro x
      simpa using whole.members x
    · rw [listed]
    · exact underway.record (.noted _) (by simp)

/-- The batch is what the run comes to: all of it if the run ends well, else the first part. -/
def RunsAsBatch (s : Store) (c : Config) (refusals : Refusals) : Prop :=
  ∃ batch, IsBatch s c batch ∧
    match run c refusals ⟨s, []⟩ with
    | .ok tally g => tally = .ofOutcomes (batch.map (·.outcome c refusals)) ∧
      g.journal.outcomes = batch.map (·.outcome c refusals) ∧ Settled s g.store c refusals batch
    | .error _ g => ∃ seen, seen <+: batch ∧
      g.journal.outcomes = seen.map (·.outcome c refusals) ∧ Settled s g.store c refusals seen

theorem spared_of_dots (free : c.registry.get? temporaryEnding = none)
    (dots : ∀ x y, IsCandidate s c x → IsCandidate s c y → x.Updated c →
      refusals (x.path c).toText ≠ none → y.Updated c → Beside x.place y.place →
      ∃ name ∈ x.names.getLast?, ∃ letter ∈ name.text, letter ≠ '.') : Spared s c refusals := by
  intro x y candidate candidate' updated refuse beside
  obtain ⟨directory, name, longer, text, names, names'⟩ := candidate.beside candidate' beside
  have plain := longer.slash_not_mem
  have header := candidate.header
  have header' := candidate'.header
  rw [names, extension_relative] at header
  rw [names', extension_relative, text] at header'
  rw [text] at plain
  by_cases more : ∃ letter ∈ name.text, letter ≠ '.'
  · have extension : Relative.extension (name.text ++ temporaryEnding) = temporaryEnding :=
      Relative.extension_append more plain (by decide)
    rw [extension, free] at header'
    cases header'
  · have all : ∀ letter ∈ name.text, letter = '.' := by
      intro letter member
      by_contra other
      exact more ⟨letter, member, other⟩
    constructor
    · by_contra lacks
      obtain ⟨name', last, some⟩ :=
        dots x y candidate candidate' updated refuse ⟨lacks, updated.2⟩ beside
      rw [names, List.getLast?_concat, Option.mem_some_iff] at last
      subst last
      exact more some
    · rw [Relative.extension_dots name.slash_not_mem all] at header
      rw [Relative.extension_dots_append all plain (by decide), header] at header'
      exact (Option.some.inj header').symm

/-- Without links a run is its batch, made from what the files hold at the beginning. Only the refused
move of a file named by dots alone can leave behind what the batch does not know of. -/
theorem run_as_batch (s : Store) (c : Config) (refusals : Refusals)
    (noLinks : ∀ place target, s.get? place ≠ some (.link target))
    (free : c.registry.get? temporaryEnding = none)
    (dots : ∀ x y, IsCandidate s c x → IsCandidate s c y → x.Updated c →
      refusals (x.path c).toText ≠ none → y.Updated c → Beside x.place y.place →
      ∃ name ∈ x.names.getLast?, ∃ letter ∈ name.text, letter ≠ '.') :
    RunsAsBatch s c refusals := by
  have ends := run_underway refusals noLinks (spared_of_dots free dots)
  unfold RunsAsBatch
  generalize run c refusals ⟨s, []⟩ = result at ends ⊢
  cases result with
  | ok tally g =>
    obtain ⟨batch, isBatch, counted, underway⟩ := ends
    exact ⟨batch, isBatch, counted, underway.reported, underway.settled⟩
  | error fault g =>
    obtain ⟨batch, seen, isBatch, first, underway⟩ := ends
    exact ⟨batch, isBatch, seen, first, underway.reported, underway.settled⟩

theorem noLinks_of_nodes {s : Store} (plain : ∀ entry ∈ s.nodes, entry.2.kind ≠ .link)
    (place : Location) (target : Text) : s.get? place ≠ some (.link target) := by
  intro held
  have below : place ≠ [] := by
    intro same
    subst same
    cases held
  exact plain _ (mem_of_get? below held) rfl

theorem IsCandidate.letter (bare : c.registry.get? [] = none) {x : Candidate}
    (h : IsCandidate s c x) : ∃ name ∈ x.names.getLast?, ∃ letter ∈ name.text, letter ≠ '.' := by
  obtain ⟨above, name, names⟩ := h.concat
  refine ⟨name, by rw [names, List.getLast?_concat]; rfl, ?_⟩
  have header := h.header
  rw [names, extension_relative] at header
  by_cases more : ∃ letter ∈ name.text, letter ≠ '.'
  · exact more
  · have dots : ∀ letter ∈ name.text, letter = '.' := by
      intro letter member
      by_cases dot : letter = '.'
      · exact dot
      · exact absurd ⟨letter, member, dot⟩ more
    rw [Relative.extension_dots name.slash_not_mem dots, bare] at header
    cases header

def twoFiles (first second : Name) (contents contents' : Bytes) : Store where
  base := []
  nodes := [([first], .file contents), ([second], .file contents')]

def oneExtension (extension license : Text) : Config :=
  .ofDraft { registry := some (Registry.empty.insert extension ⟨license, []⟩) }

theorem run_as_batch_two_files :
    RunsAsBatch (twoFiles ⟨"a.c", by decide⟩ ⟨"a.c.new", by decide⟩ [97] [98])
      (oneExtension ".c" "H") (fun _ => none) := by
  refine run_as_batch (twoFiles ⟨"a.c", by decide⟩ ⟨"a.c.new", by decide⟩ [97] [98])
    (oneExtension ".c" "H") (fun _ => none) ?_ (by decide) ?_
  · exact noLinks_of_nodes (by decide)
  · intro x y candidate _ _ _ _ _
    exact candidate.letter (by decide)

/-- If files without an extension have a header, the temporary name of `...` is a candidate too, and
its outcome is not that of the file which was there at the beginning. -/
theorem run_not_as_batch_dots :
    let s := twoFiles ⟨"...", by decide⟩ ⟨"....new", by decide⟩ [97] [98]
    let c := oneExtension [] "H"
    (∀ place target, s.get? place ≠ some (.link target)) ∧
      c.dryRun = false ∧ c.registry.get? temporaryEnding = none ∧
      ¬ RunsAsBatch s c (fun p => if p = "...".toList then some ⟨13, []⟩ else none) := by
  intro s c
  refine ⟨noLinks_of_nodes (by decide), by decide, by decide, ?_⟩
  intro given
  obtain ⟨batch, isBatch, ends⟩ := given
  let x : Candidate := ⟨[⟨"....new", by decide⟩], [⟨"....new", by decide⟩], [98], ⟨"H", []⟩⟩
  have candidate : IsCandidate s c x := by
    refine ⟨⟨[], by decide +kernel, rfl, ?_⟩, by decide, by decide, by decide, by decide⟩
    intro upper before
    rw [List.prefix_nil.1 before]
    exact s.root_isDirectory
  have ran : (match run c (fun p => if p = "...".toList then some ⟨13, []⟩ else none) ⟨s, []⟩ with
      | .ok _ g => g.journal.outcomes
      | .error _ _ => []) =
        [⟨"...", .updated, some ⟨.ofText "....new", .ofText "...", .coded 13 [] .nothing⟩⟩,
          ⟨"....new", .ok, none⟩] := by
    decide +kernel
  generalize run c (fun p => if p = "...".toList then some ⟨13, []⟩ else none) ⟨s, []⟩ = result
    at ends ran
  cases result with
  | error fault g => cases ran
  | ok tally g =>
    have reported := List.mem_map_of_mem (f := (·.outcome c fun p =>
      if p = "...".toList then some ⟨13, []⟩ else none)) ((isBatch.complete x).2 candidate)
    rw [← ends.2.1] at reported
    dsimp only at ran
    rw [ran] at reported
    revert reported
    decide +kernel

end LicenseHeaders.Insertion
