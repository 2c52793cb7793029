import LicenseHeaders.Proofs.Batch
import LicenseHeaders.Proofs.ReplayedJournal

/-!
The directories that a walk lists. It comes to an end on every store, since it only ever descends
from directories to directories that were there at the beginning, whatever links lead elsewhere and
whatever files appear meanwhile. No directory is listed twice, and a walk that returns has listed
exactly those to which directories lead from the root, none of them pruned.
-/
namespace LicenseHeaders

namespace Job

variable {α β : Type}

def Shallow (x : Job α) : Prop := ∀ g g', x g ≠ .error .tooDeep g'

/-- The job has ended in a fault that it met. To give up for the depth of directories is no such
fault. -/
def Raises (result : EStateM.Result Fault Progress α) : Prop :=
  ∃ fault g, result = .error fault g ∧ fault ≠ .tooDeep

theorem not_raises {result : EStateM.Result Fault Progress α} {a : α} {g : Progress}
    (returned : result = .ok a g) : ¬ Raises result := by
  rintro ⟨fault, g', failed, _⟩
  rw [returned] at failed
  cases failed

theorem Shallow.eq_ok {x : Job α} (shallow : Shallow x) {g : Progress} (quiet : ¬ Raises (x g)) :
    ∃ a g', x g = .ok a g' := by
  cases ends : x g with
  | ok a g' => exact ⟨a, g', rfl⟩
  | error fault g' =>
    have met : fault ≠ .tooDeep := by
      rintro rfl
      exact shallow g g' ends
    exact absurd ⟨fault, g', ends, met⟩ quiet

theorem shallow_pure (a : α) : Shallow (pure a : Job α) := by
  intro g g' h
  cases h

theorem shallow_throw {fault : Fault} (other : fault ≠ .tooDeep) : Shallow (throw fault : Job α) := by
  intro g g' h
  cases h
  exact other rfl

theorem Shallow.bind {x : Job α} {f : α → Job β} (first : Shallow x) (second : ∀ a, Shallow (f a)) :
    Shallow (x >>= f) := by
  intro g g' h
  rw [bind_apply] at h
  split at h
  · exact second _ _ _ h
  · rename_i fault between failed
    cases h
    exact first _ _ failed

theorem shallow_record (event : Event) : Shallow (record event) := by
  intro g g' h
  cases h

theorem shallow_store : Shallow Job.store := by
  intro g g' h
  cases h

theorem shallow_change (s : Store) (event : Event) : Shallow (change s event) := by
  intro g g' h
  cases h

theorem shallow_orFault (path : Text) (answer : Except Cause α) : Shallow (orFault path answer) := by
  cases answer with
  | ok a => exact shallow_pure a
  | error cause => exact shallow_throw (by simp)

theorem shallow_guardPath (p : Path) : Shallow (guardPath p) := by
  unfold guardPath
  split
  · exact shallow_throw (by simp)
  · exact shallow_pure ()

theorem shallow_read (p : Path) : Shallow (Job.read p) :=
  (shallow_guardPath p).bind fun _ => shallow_store.bind fun _ => shallow_orFault _ _

theorem shallow_list (p : Path) : Shallow (Job.list p) :=
  (shallow_guardPath p).bind fun _ => shallow_store.bind fun _ =>
    (shallow_orFault _ _).bind fun _ => (shallow_record _).bind fun _ => shallow_pure _

theorem shallow_write (p : Path) (contents : Bytes) : Shallow (Job.write p contents) :=
  (shallow_guardPath p).bind fun _ => shallow_store.bind fun _ =>
    (shallow_orFault _ _).bind fun _ => shallow_change _ _

end Job

namespace Insertion
open Job

theorem shallow_moveOver (refusals : Refusals) (temporary p : Path) :
    Shallow (moveOver refusals temporary p) := by
  unfold moveOver
  split
  · exact shallow_pure _
  · refine shallow_store.bind fun s => ?_
    split
    · exact (shallow_change _ _).bind fun _ => shallow_pure _
    · exact shallow_pure _

theorem shallow_replace (refusals : Refusals) (p : Path) (content : SourceText) :
    Shallow (replace refusals p content) := by
  unfold replace
  split
  · exact shallow_throw (by simp)
  · exact (shallow_write _ _).bind fun _ => shallow_moveOver _ _ _

theorem shallow_process (c : Config) (refusals : Refusals) (p : Path) (rel : Text) (header : Header) :
    Shallow (process c refusals p rel header) := by
  unfold process readSource
  refine ((shallow_read p).bind fun _ => shallow_pure _).bind fun content => ?_
  split
  · exact shallow_pure _
  · split
    · exact shallow_pure _
    · refine (shallow_replace _ _ _).bind fun failure => ?_
      split <;> exact (shallow_record _).bind fun _ => shallow_pure _

theorem shallow_settle (c : Config) (refusals : Refusals) (p : Path) (rel : Text) :
    Shallow (settle c refusals p rel) := by
  unfold settle
  split
  · exact shallow_pure _
  · exact (shallow_process _ _ _ _ _).bind fun _ => (shallow_record _).bind fun _ => shallow_pure _

theorem before_below (names : Location) (name : Name) (more : Location) :
    Before names (names ++ [name] ++ more) := by
  have longer : names.map Name.text ++ [] < names.map Name.text ++ [name.text] :=
    List.append_left_lt (List.nil_lt_cons _ _)
  refine Before.append ?_ more
  rwa [List.append_nil, ← List.map_singleton, ← List.map_append] at longer

theorem Before.ne {a b : Location} (h : Before a b) : a ≠ b := by
  intro same
  exact h.not_begins (same ▸ List.prefix_refl a)

end Insertion

namespace Traversal
open Store Job Insertion

section Depth

variable {α : Type} {prune : Text → Bool} {act : Path → Text → Job α}
variable {directory : Path} {rel : Text} {g : Progress}
variable {enter enter' : Path → Text → Job (List α)}
variable (deeper : ∀ p rel g,
  (∀ g', enter p rel g ≠ .error .tooDeep g') → enter' p rel g = enter p rel g)
include deeper

theorem visitEntry_deeper {entry : Entry}
    (ends : ∀ g', visitEntry prune act enter directory rel entry g ≠ .error .tooDeep g') :
    visitEntry prune act enter' directory rel entry g =
      visitEntry prune act enter directory rel entry g := by
  obtain ⟨name, kind⟩ := entry
  cases kind with
  | file | link => rfl
  | directory =>
    unfold visitEntry at ends ⊢
    dsimp only at ends ⊢
    split
    · rfl
    · rename_i kept
      rw [if_neg kept] at ends
      exact deeper _ _ _ ends

theorem visitEntries_deeper {entries : List Entry}
    (ends : ∀ g', visitEntries prune act enter directory rel entries g ≠ .error .tooDeep g') :
    visitEntries prune act enter' directory rel entries g =
      visitEntries prune act enter directory rel entries g := by
  induction entries generalizing g with
  | nil => rfl
  | cons entry rest ih =>
    simp only [visitEntries_cons_apply] at ends ⊢
    have first : ∀ g', visitEntry prune act enter directory rel entry g ≠ .error .tooDeep g' := by
      intro g' failed
      rw [failed] at ends
      exact ends g' rfl
    rw [visitEntry_deeper deeper first]
    cases now : visitEntry prune act enter directory rel entry g with
    | error fault g' => rfl
    | ok outcomes between =>
      rw [now] at ends
      dsimp only at ends ⊢
      rw [ih]
      intro g' failed
      rw [failed] at ends
      exact ends g' rfl

end Depth

section Enough

variable {α : Type} {prune : Text → Bool} {act : Path → Text → Job α}
variable {directory : Path} {rel : Text} {g : Progress}

theorem visit_succ {depth : Nat}
    (ends : ∀ g', visit prune act depth directory rel g ≠ .error .tooDeep g') :
    visit prune act (depth + 1) directory rel g = visit prune act depth directory rel g := by
  induction depth generalizing directory rel g with
  | zero => exact absurd rfl (ends g)
  | succ depth ih =>
    rw [visit_apply] at ends
    rw [visit_apply, visit_apply]
    cases listed : Job.list directory g with
    | error fault g' => rfl
    | ok entries between =>
      rw [listed] at ends
      exact visitEntries_deeper (fun p rel g => ih) ends

theorem visit_deeper {depth more : Nat} (le : depth ≤ more)
    (ends : ∀ g', visit prune act depth directory rel g ≠ .error .tooDeep g') :
    visit prune act more directory rel g = visit prune act depth directory rel g := by
  induction more, le using Nat.le_induction with
  | base => rfl
  | succ more _ ih => rw [visit_succ (by rwa [ih]), ih]

end Enough

/-- The walk comes to this directory: directories lead there, and none below the root is pruned. -/
structure Entered (s : Store) (prune : Text → Bool) (home names : Location) : Prop where
  down : s.Descends home names
  kept : ∀ upper, upper <+: names → upper ≠ [] → prune (relative upper) = false

section Entered

variable {s : Store} {prune : Text → Bool} {home names : Location}

theorem entered_nil (inside : s.IsDirectory home) : Entered s prune home [] := by
  refine ⟨descends_nil.2 inside, ?_⟩
  intro upper before some
  exact absurd (List.prefix_nil.1 before) some

theorem Entered.concat (h : Entered s prune home names) {name : Name}
    (inside : s.IsDirectory (home ++ names ++ [name]))
    (kept : prune (relative (names ++ [name])) = false) : Entered s prune home (names ++ [name]) := by
  refine ⟨descends_concat.2 ⟨h.down, inside⟩, ?_⟩
  intro upper before some
  rcases List.prefix_concat_iff.1 before with rfl | before
  · exact kept
  · exact h.kept upper before some

end Entered

/-- A part of the walk has listed directories of a kind to which the walk comes on the store `s`, in
the order of the names on the way down. It has listed all of them if it is through; if not, it has
failed, but not for the depth of directories. -/
structure Toured {α : Type} (s : Store) (prune : Text → Bool) (home : Location)
    (kind : Location → Prop) (g : Progress) (result : EStateM.Result Fault Progress α)
    (new : Journal) (all : List Location) : Prop where
  journal : (progressOf result).journal = g.journal ++ new
  course : Course g.store new (progressOf result).store
  listings : new.listings = all.map (home ++ ·)
  ordered : all.Pairwise Before
  entered : ∀ x ∈ all, Entered s prune home x ∧ kind x
  complete : ∀ a g', result = .ok a g' → ∀ x, Entered s prune home x → kind x → x ∈ all
  shallow : ∀ g', result ≠ .error .tooDeep g'

def Tours {α : Type} (s : Store) (prune : Text → Bool) (home : Location) (kind : Location → Prop)
    (g : Progress) (result : EStateM.Result Fault Progress α) : Prop :=
  ∃ new all, Toured s prune home kind g result new all

section Tours

variable {α : Type} {s : Store} {prune : Text → Bool} {home : Location}
variable {kind kind' : Location → Prop} {g : Progress} {result : EStateM.Result Fault Progress α}

theorem Tours.congr (h : Tours s prune home kind g result)
    (same : ∀ x, Entered s prune home x → (kind x ↔ kind' x)) : Tours s prune home kind' g result := by
  obtain ⟨new, all, toured⟩ := h
  refine ⟨new, all, { toured with entered := ?_, complete := ?_ }⟩
  · intro x member
    obtain ⟨entered, own⟩ := toured.entered x member
    exact ⟨entered, (same x entered).1 own⟩
  · intro a g' done x entered own
    exact toured.complete a g' done x entered ((same x entered).2 own)

theorem tours_of_proceeds (h : Proceeds g result) (shallow : ∀ g', result ≠ .error .tooDeep g')
    (nothing : ∀ x, Entered s prune home x → ¬ kind x) : Tours s prune home kind g result := by
  obtain ⟨new, journal, silent, course⟩ := h
  refine ⟨new, [], journal, course, silent, .nil, by simp, ?_, shallow⟩
  intro a g' done x entered own
  exact absurd own (nothing x entered)

theorem Tours.bind {β : Type} {x : Job α} {f : α → Job β}
    (first : Tours s prune home kind g (x g)) (kind' : Location → Prop)
    (second : ∀ a between, x g = .ok a between → Steady g.store between.store →
      Tours s prune home kind' between (f a between))
    (before : ∀ a b, kind a → kind' b → Before a b) :
    Tours s prune home (fun y => kind y ∨ kind' y) g ((x >>= f) g) := by
  obtain ⟨new, all, early⟩ := first
  rw [bind_apply]
  cases now : x g with
  | error fault between =>
    rw [now] at early
    refine ⟨new, all, early.journal, early.course, early.listings, early.ordered, ?_, by simp, ?_⟩
    · intro y member
      exact (early.entered y member).imp_right .inl
    · intro g' failed
      cases failed
      exact early.shallow _ rfl
  | ok a between =>
    rw [now] at early
    obtain ⟨new', all', late⟩ := second a between now early.course.last
    have journal : between.journal = g.journal ++ new := early.journal
    refine ⟨new ++ new', all ++ all', ?_, early.course.append late.course, ?_, ?_, ?_, ?_,
      late.shallow⟩
    · rw [late.journal, journal, List.append_assoc]
    · rw [Journal.listings_append, early.listings, late.listings, List.map_append]
    · refine List.pairwise_append.2 ⟨early.ordered, late.ordered, ?_⟩
      intro y inFirst z inSecond
      exact before y z (early.entered y inFirst).2 (late.entered z inSecond).2
    · intro y member
      rcases List.mem_append.1 member with inFirst | inSecond
      · exact (early.entered y inFirst).imp_right .inl
      · exact (late.entered y inSecond).imp_right .inr
    · intro b g' done y inside own
      rcases own with own | own
      · exact List.mem_append_left _ (early.complete a between rfl y inside own)
      · exact List.mem_append_right _ (late.complete b g' done y inside own)

end Tours

/-- What may be done to a file on a walk: no directory is listed, made or removed by it, and it does
not fail for the depth of directories. -/
structure Harmless {α : Type} (act : Path → Text → Job α) : Prop where
  proceeds : ∀ p rel g, Proceeds g (act p rel g)
  shallow : ∀ p rel, Shallow (act p rel)

theorem harmless_pure {α : Type} (answer : Path → Text → α) :
    Harmless fun p rel => pure (answer p rel) :=
  ⟨fun _ _ _ => proceeds_of_same rfl, fun _ _ => shallow_pure _⟩

section Walk

variable {α : Type} {prune : Text → Bool} {act : Path → Text → Job α} (harmless : Harmless act)
variable {root : Path} {s : Store} {home names : Location} {g : Progress}
variable {enter : Path → Text → Job (List α)}

section Entries
include harmless

theorem visitEntry_proceeds {entry : Entry} (other : entry.kind ≠ .directory) :
    Proceeds g (visitEntry prune act enter (root.below names) (relative names) entry g) ∧
      ∀ g', visitEntry prune act enter (root.below names) (relative names) entry g ≠
        .error .tooDeep g' := by
  obtain ⟨name, kind⟩ := entry
  have done := harmless.proceeds (root.below (names ++ [name])) (relative (names ++ [name])) g
  have shallow := harmless.shallow (root.below (names ++ [name])) (relative (names ++ [name])) g
  generalize acted : act (root.below (names ++ [name])) (relative (names ++ [name])) g =
    result at done shallow
  cases kind with
  | directory => exact absurd rfl other
  | file =>
    rw [visitEntry_file, acted]
    cases result with
    | ok answer g' => exact ⟨done, by simp⟩
    | error fault g' => exact ⟨done, by simpa using shallow⟩
  | link =>
    rw [visitEntry_link, acted]
    split
    · cases result with
      | ok answer g' => exact ⟨done, by simp⟩
      | error fault g' => exact ⟨done, by simpa using shallow⟩
    · exact ⟨proceeds_of_same rfl, by simp⟩
    · exact ⟨proceeds_of_same rfl, by simp⟩
    · exact ⟨proceeds_of_same rfl, by simp⟩

theorem visitEntry_tours {entry : Entry} (entered : Entered s prune home names)
    (real : entry.kind = .directory ↔ s.IsDirectory (home ++ names ++ [entry.name]))
    (enters : Entered s prune home (names ++ [entry.name]) →
      Tours s prune home (names ++ [entry.name] <+: ·) g
        (enter (root.below (names ++ [entry.name])) (relative (names ++ [entry.name])) g)) :
    Tours s prune home (names ++ [entry.name] <+: ·) g
      (visitEntry prune act enter (root.below names) (relative names) entry g) := by
  by_cases kind : entry.kind = .directory
  · obtain ⟨name, _⟩ := entry
    obtain rfl : _ = Kind.directory := kind
    rw [visitEntry_directory]
    split
    · rename_i pruned
      refine tours_of_proceeds ⟨[.noted _], rfl, rfl, (Course.refl _).told rfl⟩ (by simp) ?_
      intro x inside under
      have kept := inside.kept _ under (by simp)
      rw [pruned] at kept
      cases kept
    · rename_i kept
      exact enters (entered.concat (real.1 rfl) (by simpa using kept))
  · obtain ⟨done, shallow⟩ := visitEntry_proceeds harmless kind
    refine tours_of_proceeds done shallow ?_
    intro x inside under
    have directory := inside.down _ under
    rw [← List.append_assoc] at directory
    exact kind (real.2 directory)

theorem visitEntries_tours (entered : Entered s prune home names)
    (enters : ∀ name g, Steady s g.store → Entered s prune home (names ++ [name]) →
      Tours s prune home (names ++ [name] <+: ·) g
        (enter (root.below (names ++ [name])) (relative (names ++ [name])) g))
    (entries : List Entry) (sorted : entries.Pairwise fun a b => Store.Earlier a.name b.name)
    (real : ∀ entry ∈ entries,
      (entry.kind = .directory ↔ s.IsDirectory (home ++ names ++ [entry.name])))
    (steady : Steady s g.store) :
    Tours s prune home (fun x => ∃ entry ∈ entries, names ++ [entry.name] <+: x) g
      (visitEntries prune act enter (root.below names) (relative names) entries g) := by
  induction entries generalizing g with
  | nil =>
    have same : visitEntries prune act enter (root.below names) (relative names) [] g = .ok [] g :=
      rfl
    rw [same]
    exact tours_of_proceeds (proceeds_of_same rfl) (by simp) (by simp)
  | cons entry rest ih =>
    obtain ⟨before, ordered⟩ := List.pairwise_cons.1 sorted
    have now : Tours s prune home (names ++ [entry.name] <+: ·) g
        (visitEntry prune act enter (root.below names) (relative names) entry g) :=
      visitEntry_tours harmless entered (real entry (List.mem_cons_self ..))
        (enters entry.name g steady)
    rw [visitEntries]
    refine (now.bind (fun x => ∃ other ∈ rest, names ++ [other.name] <+: x) ?_ ?_).congr ?_
    · intro answers between _ kept
      have later := ih (g := between) ordered
        (fun other member => real other (List.mem_cons_of_mem _ member)) (steady.trans kept)
      refine (later.bind (fun _ => False) ?_ (by simp)).congr (by simp)
      intro more g' _ _
      exact tours_of_proceeds (proceeds_of_same rfl) (by simp) (by simp)
    · intro x y own given
      obtain ⟨other, member, under⟩ := given
      exact before_of_names own under (before other member)
    · intro x _
      simp

end Entries

theorem list_below_eq_ok {spent : Nat} {entries : List Entry} {g' : Progress}
    (reached : Reaches s root spent home) (down : s.Descends home names) (steady : Steady s g.store)
    (listed : Job.list (root.below names) g = .ok entries g') :
    entries = g.store.entriesIn (home ++ names) ∧
      g' = { g with journal := g.journal ++ [.listed (home ++ names)] } := by
  obtain ⟨place, located, inside, rfl, rfl⟩ := Job.list_eq_ok listed
  obtain ⟨_, arrived⟩ := reaches_of_locate located inside
  obtain ⟨_, rfl⟩ := arrived.unique ((steady.reaches reached).below (steady.descends down))
  exact ⟨rfl, rfl⟩

theorem list_tours {spent : Nat} (reached : Reaches s root spent home)
    (entered : Entered s prune home names) (steady : Steady s g.store) :
    Tours s prune home (· = names) g (Job.list (root.below names) g) := by
  have shallow := shallow_list (root.below names) g
  cases listed : Job.list (root.below names) g with
  | error fault g' =>
    rw [listed] at shallow
    obtain rfl := Job.list_eq_error listed
    exact ⟨[], [], by simp [progressOf], .refl _, rfl, .nil, by simp, by simp, shallow⟩
  | ok entries g' =>
    obtain ⟨rfl, rfl⟩ := list_below_eq_ok reached entered.down steady listed
    refine ⟨[.listed (home ++ names)], [names], rfl, .one rfl (.refl _), rfl,
      List.pairwise_singleton .., ?_, ?_, by simp⟩
    · intro x member
      obtain rfl := List.mem_singleton.1 member
      exact ⟨entered, rfl⟩
    · intro _ _ _ x _ own
      exact List.mem_singleton.2 own

theorem begins_iff {x : Location} : x = names ∨ (∃ name, names ++ [name] <+: x) ↔ names <+: x := by
  constructor
  · intro given
    rcases given with rfl | ⟨name, under⟩
    · exact List.prefix_refl x
    · exact (List.prefix_append _ _).trans under
  · intro under
    obtain ⟨more, rfl⟩ := under
    cases more with
    | nil => exact .inl (List.append_nil names)
    | cons name more => exact .inr ⟨name, more, by simp⟩

theorem entriesIn_directory (steady : Steady s g.store) :
    ∀ entry ∈ g.store.entriesIn (home ++ names),
      (entry.kind = .directory ↔ s.IsDirectory (home ++ names ++ [entry.name])) := by
  intro entry member
  obtain ⟨node, held, kind⟩ := mem_entriesIn.1 member
  rw [← steady.isDirectory_iff, IsDirectory, held, kind]
  cases node <;> simp [Node.kind]

include harmless

/-- Each directory below is another one, so as many as there are bound the depth. -/
theorem visit_tours {spent depth : Nat} (reached : Reaches s root spent home)
    (entered : Entered s prune home names) (steady : Steady s g.store)
    (enough : s.directoryCount < depth + names.length) :
    Tours s prune home (names <+: ·) g
      (visit prune act depth (root.below names) (relative names) g) := by
  induction depth generalizing names g with
  | zero =>
    have bounded := entered.down.length_le
    omega
  | succ depth ih =>
    rw [visit]
    refine ((list_tours reached entered steady).bind
      (fun x => ∃ name, names ++ [name] <+: x) ?_ ?_).congr fun x _ => begins_iff
    · intro entries between listed _
      obtain ⟨rfl, rfl⟩ := list_below_eq_ok reached entered.down steady listed
      refine (visitEntries_tours harmless entered ?_ _ (sorted_entriesIn ..)
        (entriesIn_directory steady)
        (g := { g with journal := g.journal ++ [.listed (home ++ names)] }) steady).congr ?_
      · intro name g' steady' entered'
        exact ih entered' steady' (by rw [List.length_append, List.length_singleton]; omega)
      · intro x inside
        constructor
        · intro given
          obtain ⟨entry, _, under⟩ := given
          exact ⟨entry.name, under⟩
        · intro given
          obtain ⟨name, under⟩ := given
          have directory := inside.down _ under
          rw [← List.append_assoc, ← steady.isDirectory_iff] at directory
          exact ⟨⟨name, .directory⟩, mem_entriesIn.2 ⟨.directory, directory, rfl⟩, under⟩
    · intro x y own given
      obtain ⟨name, more, rfl⟩ := given
      subst own
      exact before_below x name more

theorem visit_root_tours (prune : Text → Bool) (root : Path) (g : Progress) {depth : Nat}
    (enough : g.store.directoryCount < depth) :
    ∃ home,
      Tours g.store prune home (fun _ => True) g (visit prune act depth root [] g) ∧
      ∀ answers g', visit prune act depth root [] g = .ok answers g' →
        g.store.locate root = .ok home := by
  cases listed : Job.list root g with
  | error fault g' =>
    have shallow : fault ≠ .tooDeep := by
      intro same
      exact shallow_list root g g' (same ▸ listed)
    obtain rfl := Job.list_eq_error listed
    obtain ⟨depth, rfl⟩ := Nat.exists_eq_succ_of_ne_zero (Nat.ne_zero_of_lt enough)
    rw [visit_apply, listed]
    refine ⟨[], ⟨[], [], ?_⟩, by simp⟩
    exact ⟨by simp [progressOf], .refl _, rfl, .nil, by simp, by simp, by simpa using shallow⟩
  | ok entries g' =>
    obtain ⟨home, found, inside, _⟩ := Job.list_eq_ok listed
    obtain ⟨spent, reached⟩ := reaches_of_locate found inside
    have toured : Tours g.store prune home ([] <+: ·) g
        (visit prune act depth (root.below []) (relative []) g) :=
      visit_tours harmless reached (entered_nil inside) (.refl g.store) (by simpa using enough)
    rw [Path.below_nil, relative_nil] at toured
    exact ⟨home, toured.congr (by simp), fun _ _ _ => found⟩

theorem overFiles_tours (prune : Text → Bool) (root : Path) (g : Progress) :
    ∃ home, Tours g.store prune home (fun _ => True) g (overFiles prune act root g) ∧
      ∀ answers g', overFiles prune act root g = .ok answers g' → g.store.locate root = .ok home :=
  visit_root_tours harmless prune root g (Nat.lt_succ_self _)

theorem shallow_overFiles (prune : Text → Bool) (root : Path) :
    Shallow (overFiles prune act root) := by
  intro g
  obtain ⟨_, ⟨_, _, toured⟩, _⟩ := overFiles_tours harmless prune root g
  exact toured.shallow

end Walk

end Traversal

namespace Insertion
open Store Job Traversal

theorem harmless_settle (c : Config) (refusals : Refusals) : Harmless (settle c refusals) :=
  ⟨settle_proceeds c refusals, shallow_settle c refusals⟩

theorem run_tours (c : Config) (refusals : Refusals) (g : Progress) :
    ∃ home, Tours g.store c.excludes home (fun _ => True) g (run c refusals g) ∧
      ∀ tally g', run c refusals g = .ok tally g' → g.store.locate c.root = .ok home := by
  obtain ⟨home, walked, found⟩ := overFiles_tours (harmless_settle c refusals) c.excludes c.root g
  refine ⟨home, ?_, ?_⟩
  · unfold run
    refine (walked.bind (fun _ => False) ?_ (by simp)).congr (by simp)
    intro outcomes between _ _
    exact tours_of_proceeds ⟨[.noted _], rfl, rfl, (Course.refl _).told rfl⟩ (by simp) (by simp)
  · intro tally g' done
    obtain ⟨outcomes, between, walk, _⟩ := run_eq_ok done
    rw [Path.below_nil, relative_nil] at walk
    exact found outcomes between walk

/-- Whatever the store holds and whatever is refused, a run comes to an end, and not for the depth
of directories: to let it descend further makes no difference. It lists only directories, none of
them twice, and at every moment the directories are those of the beginning. A run that returns has
listed all directories to which directories lead from the root, none below the root excluded. -/
theorem run_lists_once (c : Config) (refusals : Refusals) (g : Progress) :
    ∃ new, (progressOf (run c refusals g)).journal = g.journal ++ new ∧
      (∀ g', run c refusals g ≠ .error .tooDeep g') ∧
      (∀ depth, g.store.directoryCount < depth →
        visit c.excludes (settle c refusals) depth c.root [] g =
          visit c.excludes (settle c refusals) (g.store.directoryCount + 1) c.root [] g) ∧
      new.listings.Nodup ∧ (∀ place ∈ new.listings, g.store.IsDirectory place) ∧
      g.store.replay new = (progressOf (run c refusals g)).store ∧
      (∀ part, part <+: new → ∀ place,
        (g.store.replay part).IsDirectory place ↔ g.store.IsDirectory place) ∧
      ∀ tally g', run c refusals g = .ok tally g' →
        ∃ home, g.store.locate c.root = .ok home ∧ ∀ place, place ∈ new.listings ↔
          ∃ names, Entered g.store c.excludes home names ∧ place = home ++ names := by
  obtain ⟨home, ⟨new, all, toured⟩, found⟩ := run_tours c refusals g
  have members : ∀ place, place ∈ new.listings ↔ ∃ names ∈ all, home ++ names = place := by
    intro place
    rw [toured.listings, List.mem_map]
  refine ⟨new, toured.journal, toured.shallow, ?_, ?_, ?_, toured.course.whole, ?_, ?_⟩
  · intro depth enough
    obtain ⟨_, ⟨_, _, walked⟩, _⟩ :=
      visit_root_tours (harmless_settle c refusals) c.excludes c.root g (Nat.lt_succ_self _)
    exact visit_deeper enough walked.shallow
  · rw [toured.listings]
    exact (toured.ordered.imp Before.ne).map (home ++ ·) fun a b other same =>
      other (List.append_cancel_left same)
  · intro place member
    obtain ⟨names, inAll, rfl⟩ := (members place).1 member
    exact (toured.entered names inAll).1.down.inside
  · intro part begins
    exact (toured.course.steady part begins).isDirectory_iff
  · intro tally g' done
    refine ⟨home, found tally g' done, fun place => ?_⟩
    rw [members]
    constructor
    · intro given
      obtain ⟨names, inAll, rfl⟩ := given
      exact ⟨names, (toured.entered names inAll).1, rfl⟩
    · intro given
      obtain ⟨names, entered, rfl⟩ := given
      exact ⟨names, toured.complete tally g' done names entered trivial, rfl⟩

def loopedTree : Store where
  base := []
  nodes :=
    [([⟨"r", by decide⟩], .directory), ([⟨"r", by decide⟩, ⟨"e.c", by decide⟩], .file [97]),
      ([⟨"r", by decide⟩, ⟨"e.c.new", by decide⟩], .link "f/g.c"),
      ([⟨"r", by decide⟩, ⟨"f", by decide⟩], .directory),
      ([⟨"r", by decide⟩, ⟨"f", by decide⟩, ⟨"up", by decide⟩], .link ".."),
      ([⟨"r", by decide⟩, ⟨"q", by decide⟩], .directory),
      ([⟨"r", by decide⟩, ⟨"q", by decide⟩, ⟨"f", by decide⟩], .directory)]

theorem run_lists_once_loopedTree :
    let c : Config := .ofDraft { root := .ofText "r", license := "H", excluded := ["q"] }
    let home : Location := [⟨"r", by decide⟩]
    let g := progressOf (run c (fun _ => none) ⟨loopedTree, []⟩)
    run c (fun _ => none) ⟨loopedTree, []⟩ = .ok ⟨1, 1, ["e.c"], []⟩ g ∧
      g.journal.listings = [home, home ++ [⟨"f", by decide⟩]] ∧
      (∀ place, place ∈ g.journal.listings ↔
        ∃ names, Entered loopedTree c.excludes home names ∧ place = home ++ names) ∧
      ∀ place, g.store.IsDirectory place ↔ loopedTree.IsDirectory place := by
  intro c home g
  have ran : run c (fun _ => none) ⟨loopedTree, []⟩ = .ok ⟨1, 1, ["e.c"], []⟩ g := by decide +kernel
  obtain ⟨new, journal, _, _, _, _, whole, steady, returned⟩ :=
    run_lists_once c (fun _ => none) ⟨loopedTree, []⟩
  obtain rfl : g.journal = new := journal
  obtain ⟨home', found, listed⟩ := returned _ g ran
  obtain rfl : home = home' := Except.ok.inj found
  refine ⟨ran, by decide +kernel, listed, fun place => ?_⟩
  have last := steady _ (List.prefix_refl _) place
  rwa [whole] at last

end Insertion

end LicenseHeaders
