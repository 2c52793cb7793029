import LicenseHeaders.Proofs.AddedLink
import LicenseHeaders.Proofs.FaithfulJournal
import LicenseHeaders.Proofs.ReplayedJournal

/-!
A link that is none of a run's business, since no header is for its name. Up to the moment when the
walk comes to it, a run on the store with the link does what it does without it. There the walk asks
where the link leads before anything is asked of its name. So a link that leads nowhere, or to a
directory or a file, is passed over, but one that cannot be followed ends the run.
-/
namespace LicenseHeaders

namespace Store

variable {s t : Store} {directory : Location} {name : Name}

theorem adds_put (free : s.get? (directory ++ [name]) = none) (target : Text) :
    Adds s (s.put (directory ++ [name]) (.link target)) (directory ++ [name]) target := by
  refine ⟨rfl, free, ?_, fun place away => ?_⟩
  · rw [get?_put _ _ _ _ (by simp), if_pos rfl]
  · rw [get?_put _ _ _ _ (by simp), if_neg away]

theorem directoryCount_put_link {spot : Location} (below : spot ≠ []) (free : s.get? spot = none)
    (target : Text) : (s.put spot (.link target)).directoryCount = s.directoryCount := by
  have others : s.nodes.filter (·.1 ≠ spot) = s.nodes := by
    rw [get?, if_neg below, List.lookup_eq_none_iff] at free
    rw [List.filter_eq_self]
    intro entry member
    have apart : (spot != entry.1) = true := free entry member
    rw [bne_iff_ne] at apart
    exact decide_eq_true apart.symm
  unfold directoryCount put
  rw [others, List.filter_cons_of_neg (by simp)]

theorem place_ne_of_text {place spot : Location} {other : Name} (apart : place ++ [other] ≠ spot) :
    ∀ same : Name, same.text = other.text → place ++ [same] ≠ spot := by
  intro same text
  rwa [Name.text_injective text]

theorem Untrodden.steady (h : s.Untrodden directory name) (steady : Steady s t)
    (inside : s.IsDirectory directory) : t.Untrodden directory name := by
  intro place other target held treads
  obtain ⟨before, spent, begins, within, leads⟩ := treads
  obtain ⟨other', held'⟩ := steady.links held
  have inside' := (steady.isDirectory_iff directory).2 inside
  exact h place other' target held' ⟨before, spent, begins, within, steady.back inside' leads⟩

end Store

namespace Insertion
open Store Traversal

/-- The link is none of the run's business: no header is for it, it is not a temporary file, and no
link that is there leads by way of it. -/
structure Uninvolved (s : Store) (c : Config) (directory : Location) (name : Name) : Prop where
  tree : s.IsTree
  inside : s.IsDirectory directory
  unregistered : c.registry.get? (Relative.extension name.text) = none
  lasting : ¬ temporaryEnding <:+ name.text
  untrodden : s.Untrodden directory name

structure Paired (spot : Location) (target : Text) (g g₂ : Progress) : Prop where
  journal : g₂.journal = g.journal
  adds : Adds g.store g₂.store spot target

/-- Both jobs belong to runs of which the first has begun with the given store. -/
structure Alongside (s : Store) (spot : Location) (target : Text) (g g₂ : Progress) : Prop
    extends Paired spot target g g₂ where
  steady : Steady s g.store

/-- Where the job answers without the link, it does with it, and both have come equally far. -/
def Imitates {α : Type} (spot : Location) (target : Text) (job : Job α) (g g₂ : Progress) : Prop :=
  ∀ a g', job g = .ok a g' → ∃ g₂', job g₂ = .ok a g₂' ∧ Paired spot target g' g₂'

section Imitates

variable {α β : Type} {spot : Location} {target : Text} {g g₂ : Progress}

theorem Paired.record (h : Paired spot target g g₂) (event : Event) :
    Paired spot target { g with journal := g.journal ++ [event] }
      { g₂ with journal := g₂.journal ++ [event] } :=
  ⟨by simp [h.journal], h.adds⟩

theorem imitates_pure (h : Paired spot target g g₂) (a : α) :
    Imitates spot target (pure a) g g₂ := by
  intro a g' ran
  cases ran
  exact ⟨g₂, rfl, h⟩

theorem imitates_record (h : Paired spot target g g₂) (event : Event) :
    Imitates spot target (Job.record event) g g₂ := by
  intro a g' ran
  cases ran
  exact ⟨_, rfl, h.record event⟩

theorem Imitates.bind {x : Job α} {f : α → Job β} (first : Imitates spot target x g g₂)
    (goesOn : ∀ a g' g₂', x g = .ok a g' → Paired spot target g' g₂' →
      Imitates spot target (f a) g' g₂') : Imitates spot target (x >>= f) g g₂ := by
  intro b g'' ran
  rw [Job.bind_apply] at ran ⊢
  split at ran
  case h_2 => cases ran
  case h_1 a g' answered =>
  obtain ⟨g₂', answered₂, paired⟩ := first a g' answered
  rw [answered₂]
  exact goesOn a g' g₂' answered paired b g'' ran

end Imitates

theorem Alongside.record {s : Store} {spot : Location} {target : Text} {g g₂ : Progress}
    (along : Alongside s spot target g g₂) (event : Event) :
    Alongside s spot target { g with journal := g.journal ++ [event] }
      { g₂ with journal := g₂.journal ++ [event] } :=
  ⟨along.toPaired.record event, along.steady⟩

theorem Alongside.arrived {s : Store} {spot : Location} {target : Text} {g g₂ : Progress}
    {root : Path} {spent : Nat} {home names : Location} (along : Alongside s spot target g g₂)
    (reached : Reaches s root spent home) (down : s.Descends home names) :
    Reaches g.store (root.below names) spent (home ++ names) :=
  (along.steady.reaches reached).below (along.steady.descends down)

theorem Alongside.list {s : Store} {directory : Location} {name : Name} {target : Text}
    {g g' g₂ : Progress} {dir : Path} {spent : Nat} {place : Location} {entries : List Entry}
    (along : Alongside s (directory ++ [name]) target g g₂)
    (arrived : Reaches g.store dir spent place) (listed : Job.list dir g = .ok entries g') :
    entries = g.store.entriesIn place ∧
      g' = { g with journal := g.journal ++ [.listed place] } ∧
      Job.list dir g₂ = .ok (g₂.store.entriesIn place)
        { g₂ with journal := g₂.journal ++ [.listed place] } := by
  obtain ⟨other, found, inside, rfl, rfl⟩ := Job.list_eq_ok listed
  obtain ⟨_, there⟩ := reaches_of_locate found inside
  obtain ⟨_, rfl⟩ := there.unique arrived
  have fits := (leads_of_locate found inside (by simp [Node.kind])).1
  have null : '\x00' ∉ dir.toText := by
    intro null
    rw [Job.list_apply, if_pos null] at listed
    cases listed
  have arrived₂ := along.adds.reaches arrived
  exact ⟨rfl, rfl, Job.list_of_locate null (arrived₂.locate fits) arrived₂.inside⟩

/-- The walk is stopped at the link, since it cannot be followed there. -/
def Stopped (s : Store) (c : Config) (home directory : Location) (name : Name) (target : Text)
    (fault : Fault) (g₂ : Progress) : Prop :=
  ∃ names cause g, directory = home ++ names ∧ s.Descends home names ∧ cause ≠ .notFound ∧
    Alongside s (directory ++ [name]) target g g₂ ∧
    g₂.store.kindAt (c.root.below (names ++ [name])) = .error cause ∧
    fault = .system (.ofCause cause (Path.behind (c.root.below names).toText name.text))

/-- The walk with the link has come to the same end as the one without, or not past the link. -/
def Accompanies (s : Store) (c : Config) (home directory : Location) (name : Name) (target : Text)
    (outcomes : List (Option Outcome)) (g : Progress) :
    EStateM.Result Fault Progress (List (Option Outcome)) → Prop
  | .ok outcomes₂ g₂ => outcomes₂.filterMap id = outcomes.filterMap id ∧
      Alongside s (directory ++ [name]) target g g₂
  | .error fault g₂ => Stopped s c home directory name target fault g₂ ∧ g₂.journal <+: g.journal

variable {s : Store} {c : Config} {refusals : Refusals} {directory home names : Location}
variable {name other : Name} {target : Text} {spent : Nat} {g g' g₂ : Progress}

theorem readSource_eq_ok {p : Path} {content : SourceText}
    (ran : readSource p g = .ok content g') : g' = g := by
  unfold readSource at ran
  rw [Job.bind_apply, Job.read_apply] at ran
  split at ran
  case h_2 => cases ran
  case h_1 contents between opened =>
  cases ran
  split at opened
  case isTrue => cases opened
  case isFalse =>
  split at opened <;> cases opened
  rfl

theorem Paired.moveOver (paired : Paired (directory ++ [name]) target g g₂) {dir : Path}
    {place : Location} (arrived : Reaches g.store dir spent place) {a b : Text}
    (apart : ∀ other : Name, other.text = a → place ++ [other] ≠ directory ++ [name])
    (apart' : ∀ other : Name, other.text = b → place ++ [other] ≠ directory ++ [name]) :
    Imitates (directory ++ [name]) target (moveOver refusals (dir.child a) (dir.child b)) g g₂ := by
  intro failure g' ran
  unfold Insertion.moveOver at ran ⊢
  cases refuse : refusals (dir.child b).toText with
  | some refusal =>
    rw [refuse] at ran
    cases ran
    exact ⟨_, rfl, paired⟩
  | none =>
    simp only [refuse, Job.bind_apply, Job.store_apply] at ran ⊢
    rcases paired.adds.move arrived apart apart' with
      ⟨cause, refused, refused₂⟩ | ⟨old, new, node, away, away', below, below', moved, moved₂⟩
    · rw [refused] at ran
      rw [refused₂]
      cases ran
      exact ⟨_, rfl, paired⟩
    · rw [moved] at ran
      rw [moved₂]
      cases ran
      exact ⟨_, rfl, by simp [paired.journal], (paired.adds.erase away below).put away' below' node⟩

section Walk

variable {enter : Path → Text → Job (List (Option Outcome))} {between : Progress}
variable {now later : List (Option Outcome)}

theorem Accompanies.cons {entry : Entry} {rest : List Entry}
    (first : Accompanies s c home directory name target now between
      (visitEntry c.excludes (settle c refusals) enter (c.root.below names) (relative names) entry
        g₂))
    (goesOn : ∀ g₂', Alongside s (directory ++ [name]) target between g₂' →
      Accompanies s c home directory name target later g'
        (visitEntries c.excludes (settle c refusals) enter (c.root.below names) (relative names) rest
          g₂'))
    (grows : between.journal <+: g'.journal) :
    Accompanies s c home directory name target (now ++ later) g'
      (visitEntries c.excludes (settle c refusals) enter (c.root.below names) (relative names)
        (entry :: rest) g₂) := by
  rw [visitEntries_cons_apply]
  generalize visitEntry c.excludes (settle c refusals) enter (c.root.below names) (relative names)
    entry g₂ = result at first ⊢
  cases result with
  | error fault g₂' =>
    obtain ⟨stopped, begins⟩ := first
    exact ⟨stopped, begins.trans grows⟩
  | ok now₂ g₂' =>
    obtain ⟨same, along⟩ := first
    have second := goesOn g₂' along
    dsimp only
    generalize visitEntries c.excludes (settle c refusals) enter (c.root.below names)
      (relative names) rest g₂' = result at second ⊢
    cases result with
    | error fault g₂'' => exact second
    | ok later₂ g₂'' =>
      obtain ⟨same', along'⟩ := second
      exact ⟨by rw [List.filterMap_append, List.filterMap_append, same, same'], along'⟩

theorem journal_of_visitEntries {depth : Nat} {entries : List Entry}
    (sorted : entries.Pairwise fun a b => Store.Earlier a.name b.name)
    (ran : visitEntries c.excludes (settle c refusals) (visit c.excludes (settle c refusals) depth)
      (c.root.below names) (relative names) entries g = .ok now g') : g.journal <+: g'.journal := by
  have accounts : Accounts _ g (visitEntries c.excludes (settle c refusals)
      (visit c.excludes (settle c refusals) depth) (c.root.below names) (relative names) entries g) :=
    visitEntries_accounts (fun names g => visit_accounts depth) entries sorted
  rw [ran] at accounts
  obtain ⟨new, journal, _⟩ := accounts
  exact ⟨new, journal.symm⟩

end Walk

namespace Uninvolved

variable (h : Uninvolved s c directory name)
include h

theorem temporary_ne (place : Location) (other : Name) : ∀ longer : Name,
    longer.text = other.text ++ temporaryEnding → place ++ [longer] ≠ directory ++ [name] := by
  intro longer text same
  obtain ⟨_, last⟩ := List.append_inj' same rfl
  cases last
  exact h.lasting ⟨other.text, text.symm⟩

theorem visitLink (along : Alongside s (directory ++ [name]) target g g₂)
    (here : directory = home ++ names) (down : s.Descends home names)
    {enter : Path → Text → Job (List (Option Outcome))} :
    Accompanies s c home directory name target [] g
      (Traversal.visitEntry c.excludes (Insertion.settle c refusals) enter (c.root.below names)
        (relative names) ⟨name, .link⟩ g₂) := by
  have unsettled : Insertion.settle c refusals (c.root.below (names ++ [name]))
      (relative (names ++ [name])) g₂ = .ok none g₂ := by
    have ineligible : c.eligible? (relative (names ++ [name])) = none := by
      rw [Config.eligible?_relative, h.unregistered, ite_self]
    unfold Insertion.settle
    rw [ineligible]
    rfl
  rw [visitEntry_link, unsettled]
  cases found : g₂.store.kindAt (c.root.below (names ++ [name])) with
  | ok kind => cases kind <;> exact ⟨rfl, along⟩
  | error cause =>
    have stopped (other : cause ≠ .notFound) : Stopped s c home directory name target
        (.system (.ofCause cause (Path.behind (c.root.below names).toText name.text))) g₂ :=
      ⟨names, cause, g, here, down, other, along, found, rfl⟩
    have journal : g₂.journal <+: g.journal := along.journal ▸ List.prefix_refl _
    cases cause with
    | notFound => exact ⟨rfl, along⟩
    | busy | notADirectory | isADirectory | nameTooLong | tooManyLinks =>
      exact ⟨stopped (by simp), journal⟩

variable (reached : Reaches s c.root spent home) (down : s.Descends home names)
include reached down

section File

variable (along : Alongside s (directory ++ [name]) target g g₂)
include along

theorem write (bytes : Bytes) :
    Imitates (directory ++ [name]) target
      (Job.write ((c.root.below names).child (other.text ++ temporaryEnding)) bytes) g g₂ := by
  intro a g' ran
  rw [Job.write_apply] at ran ⊢
  split at ran
  case isTrue => cases ran
  case isFalse plain =>
  rw [if_neg plain]
  rcases along.adds.write (along.steady.isTree h.tree) (h.untrodden.steady along.steady h.inside)
    (along.arrived reached down) (h.temporary_ne _ other) bytes with
    ⟨cause, refused, _⟩ | ⟨place, away, wrote, wrote₂⟩
  · rw [refused] at ran
    cases ran
  · obtain ⟨_, _, vacant, _⟩ := write_child_eq_ok wrote
    rw [wrote] at ran
    rw [wrote₂]
    cases ran
    exact ⟨_, rfl, by simp [along.journal],
      along.adds.put away (not_root vacant.not_isDirectory) _⟩

variable (apart : home ++ names ++ [other] ≠ directory ++ [name])
include apart

theorem kindAt : g₂.store.kindAt (c.root.below (names ++ [other])) =
    g.store.kindAt (c.root.below (names ++ [other])) := by
  rw [Path.below_concat]
  exact along.adds.kindAt (along.steady.isTree h.tree) (h.untrodden.steady along.steady h.inside)
    (along.arrived reached down) (place_ne_of_text apart)

theorem read : Imitates (directory ++ [name]) target
    (readSource (c.root.below (names ++ [other]))) g g₂ := by
  have same := along.adds.read (along.steady.isTree h.tree)
    (h.untrodden.steady along.steady h.inside) (along.arrived reached down) (place_ne_of_text apart)
  refine Imitates.bind ?_ fun contents g' g₂' _ paired => imitates_pure paired _
  intro contents g' ran
  rw [Path.below_concat, Job.read_apply] at ran ⊢
  rw [same]
  split at ran
  case isTrue => cases ran
  case isFalse plain =>
  rw [if_neg plain]
  split at ran
  case h_2 => cases ran
  case h_1 =>
    cases ran
    exact ⟨g₂, rfl, along.toPaired⟩

theorem replace (content : SourceText) :
    Imitates (directory ++ [name]) target
      (Insertion.replace refusals (c.root.below (names ++ [other])) content) g g₂ := by
  rw [Path.below_concat]
  unfold Insertion.replace
  rw [Path.beside?_child]
  refine (h.write reached down along content.toBytes).bind fun _ g' g₂' wrote paired => ?_
  have arrived := (write_steady wrote).reaches (along.arrived reached down)
  exact paired.moveOver arrived (h.temporary_ne _ other) (place_ne_of_text apart)

theorem process (rel : Text) (header : Header) :
    Imitates (directory ++ [name]) target
      (Insertion.process c refusals (c.root.below (names ++ [other])) rel header) g g₂ := by
  unfold Insertion.process
  refine (h.read reached down along apart).bind fun content g' g₂' opened paired => ?_
  obtain rfl := readSource_eq_ok opened
  have along' : Alongside s (directory ++ [name]) target g' g₂' := ⟨paired, along.steady⟩
  split
  · exact imitates_pure paired _
  · split
    · exact imitates_pure paired _
    · refine (h.replace reached down along' apart _).bind fun failure _ _ _ paired => ?_
      cases failure with
      | none | some =>
        exact (imitates_record paired _).bind fun _ _ _ _ paired => imitates_pure paired _

theorem settle {now : Option Outcome}
    (ran : Insertion.settle c refusals (c.root.below (names ++ [other]))
      (relative (names ++ [other])) g = .ok now g') :
    ∃ g₂', Insertion.settle c refusals (c.root.below (names ++ [other]))
      (relative (names ++ [other])) g₂ = .ok now g₂' ∧
      Alongside s (directory ++ [name]) target g' g₂' := by
  have imitates : Imitates (directory ++ [name]) target (Insertion.settle c refusals
      (c.root.below (names ++ [other])) (relative (names ++ [other]))) g g₂ := by
    unfold Insertion.settle
    split
    · exact imitates_pure along.toPaired _
    · refine (h.process reached down along apart _ _).bind fun _ _ _ _ paired => ?_
      exact (imitates_record paired _).bind fun _ _ _ _ paired => imitates_pure paired _
  have kept := settle_steady c refusals (c.root.below (names ++ [other]))
    (relative (names ++ [other])) g
  rw [ran] at kept
  obtain ⟨g₂', ran₂, paired⟩ := imitates now g' ran
  exact ⟨g₂', ran₂, paired, along.steady.trans kept⟩

theorem visitEntry {enter : Path → Text → Job (List (Option Outcome))} {kind : Kind}
    {now : List (Option Outcome)}
    (entered : kind = .directory → enter (c.root.below (names ++ [other]))
      (relative (names ++ [other])) g = .ok now g' → Accompanies s c home directory name target now
        g' (enter (c.root.below (names ++ [other])) (relative (names ++ [other])) g₂))
    (ran : Traversal.visitEntry c.excludes (Insertion.settle c refusals) enter (c.root.below names)
      (relative names) ⟨other, kind⟩ g = .ok now g') :
    Accompanies s c home directory name target now g'
      (Traversal.visitEntry c.excludes (Insertion.settle c refusals) enter (c.root.below names)
        (relative names) ⟨other, kind⟩ g₂) := by
  cases kind with
  | directory =>
    rw [visitEntry_directory] at ran ⊢
    split at ran
    · rename_i excluded
      cases ran
      rw [if_pos excluded]
      exact ⟨rfl, along.record _⟩
    · rename_i included
      rw [if_neg included]
      exact entered rfl ran
  | file =>
    obtain ⟨a, settled, rfl⟩ := visitEntry_file_eq_ok ran
    obtain ⟨g₂', settled₂, along'⟩ := h.settle reached down along apart settled
    rw [visitEntry_file, settled₂]
    exact ⟨rfl, along'⟩
  | link =>
    have same := h.kindAt reached down along apart
    rcases visitEntry_link_eq_ok ran with ⟨a, found, settled, rfl⟩ | ⟨notFile, fault, rfl, rfl⟩
    · obtain ⟨g₂', settled₂, along'⟩ := h.settle reached down along apart settled
      rw [visitEntry_link, same, found, settled₂]
      exact ⟨rfl, along'⟩
    · rw [visitEntry_link, same]
      cases found : g'.store.kindAt (c.root.below (names ++ [other])) with
      | error cause =>
        obtain rfl := fault cause found
        exact ⟨rfl, along⟩
      | ok kind =>
        cases kind with
        | file => exact absurd found notFile
        | directory | link => exact ⟨rfl, along⟩

end File

theorem visitEntries {depth : Nat}
    (entered : ∀ other g g₂ now g', s.Descends home (names ++ [other]) →
      Alongside s (directory ++ [name]) target g g₂ →
      Traversal.visit c.excludes (Insertion.settle c refusals) depth
        (c.root.below (names ++ [other])) (relative (names ++ [other])) g = .ok now g' →
      Accompanies s c home directory name target now g'
        (Traversal.visit c.excludes (Insertion.settle c refusals) depth
          (c.root.below (names ++ [other])) (relative (names ++ [other])) g₂))
    (entries : List Entry) (sorted : entries.Pairwise fun a b => Store.Earlier a.name b.name)
    (inside : ∀ entry ∈ entries, entry.kind = .directory →
      s.IsDirectory (home ++ names ++ [entry.name]))
    (link : ∀ entry ∈ entries, home ++ names ++ [entry.name] = directory ++ [name] →
      entry.kind = .link)
    (along : Alongside s (directory ++ [name]) target g g₂) {outcomes : List (Option Outcome)}
    (ran : Traversal.visitEntries c.excludes (Insertion.settle c refusals)
      (Traversal.visit c.excludes (Insertion.settle c refusals) depth) (c.root.below names)
      (relative names)
      (entries.filter fun entry => home ++ names ++ [entry.name] ≠ directory ++ [name]) g =
        .ok outcomes g') :
    Accompanies s c home directory name target outcomes g'
      (Traversal.visitEntries c.excludes (Insertion.settle c refusals)
        (Traversal.visit c.excludes (Insertion.settle c refusals) depth) (c.root.below names)
        (relative names) entries g₂) := by
  induction entries generalizing g g₂ outcomes with
  | nil =>
    cases ran
    exact ⟨rfl, along⟩
  | cons entry rest ih =>
    obtain ⟨before, ordered⟩ := List.pairwise_cons.1 sorted
    have inside' := fun other member => inside other (List.mem_cons_of_mem _ member)
    have link' := fun other member => link other (List.mem_cons_of_mem _ member)
    have ordered' := ordered.filter fun entry =>
      decide (home ++ names ++ [entry.name] ≠ directory ++ [name])
    obtain ⟨other, kind⟩ := entry
    by_cases spot : home ++ names ++ [other] = directory ++ [name]
    · rw [List.filter_cons_of_neg (by simpa using spot)] at ran
      obtain rfl : kind = .link := link _ (List.mem_cons_self ..) spot
      obtain ⟨here, last⟩ := List.append_inj' spot rfl
      cases last
      exact (h.visitLink along here.symm down).cons
        (fun g₂' along' => ih ordered inside' link' along' ran) (journal_of_visitEntries ordered' ran)
    · rw [List.filter_cons_of_pos (by simpa using spot)] at ran
      obtain ⟨now, between, after, first, second, rfl⟩ := visitEntries_cons_eq_ok ran
      refine (h.visitEntry reached down along spot ?_ first).cons
        (fun g₂' along' => ih ordered inside' link' along' second)
        (journal_of_visitEntries ordered' second)
      intro directory visited
      have here := inside _ (List.mem_cons_self ..) directory
      exact entered other g g₂ now between (descends_concat.2 ⟨down, here⟩) along visited

theorem visit (depth : Nat) {outcomes : List (Option Outcome)}
    (along : Alongside s (directory ++ [name]) target g g₂)
    (ran : Traversal.visit c.excludes (Insertion.settle c refusals) depth (c.root.below names)
      (relative names) g = .ok outcomes g') :
    Accompanies s c home directory name target outcomes g'
      (Traversal.visit c.excludes (Insertion.settle c refusals) depth (c.root.below names)
        (relative names) g₂) := by
  induction depth generalizing names g g' g₂ outcomes with
  | zero => cases ran
  | succ depth ih =>
    rw [visit_apply] at ran ⊢
    split at ran
    case h_2 => cases ran
    case h_1 entries between listed =>
    have arrived := along.arrived reached down
    obtain ⟨rfl, rfl, listed₂⟩ := along.list arrived listed
    rw [along.adds.entriesIn] at ran
    rw [listed₂]
    refine h.visitEntries reached down ?_ _ (g₂.store.sorted_entriesIn _) ?_ ?_ (along.record _) ran
    · intro other g g₂ now g' down along visited
      exact ih down along visited
    · intro entry member directory
      obtain ⟨node, held, kind⟩ := mem_entriesIn.1 member
      cases node with
      | directory =>
        exact (along.steady.isDirectory_iff _).1 (along.adds.isDirectory_iff.1 held)
      | file | link =>
        rw [directory] at kind
        cases kind
    · intro entry member spot
      obtain ⟨node, held, kind⟩ := mem_entriesIn.1 member
      rw [spot, along.adds.held] at held
      cases held
      exact kind

end Uninvolved

theorem Alongside.kindAt_directory {s' : Store} {dir : Path}
    (adds : Adds s s' (directory ++ [name]) target)
    (along : Alongside s (directory ++ [name]) target g g₂) (arrived : Reaches s dir spent directory)
    (first : s'.kindAt (dir.child name.text) = .ok .directory) :
    g₂.store.kindAt (dir.child name.text) = .ok .directory := by
  obtain ⟨place, node, found, held, kind⟩ := kindAt_eq_ok first
  obtain rfl : node = .directory := by
    cases node with
    | directory => rfl
    | file | link => cases kind
  have fits := (leads_of_locate found held (by simp [Node.kind])).1
  obtain ⟨n, within, leads⟩ :=
    (adds.reaches arrived).leads_child found held (by simp [Node.kind])
  obtain ⟨m, rfl, chain⟩ := leads.chain adds.held
  have before : Leads s m (linkStart directory target) (linkSteps target) place := by
    refine (chain.avoid adds.held chain (Nat.le_refl m)).extend (extends_of_erase (by simp) ?_)
    intro other node away found
    rwa [adds.elsewhere other away] at found
  have inside := adds.isDirectory_iff.1 held
  have still := (along.steady.forth inside before).extend along.adds.grows
  have arrived₂ := along.adds.reaches (along.steady.reaches arrived)
  have step : Leads g₂.store (m + 1) directory [.into name.text] place :=
    .link arrived₂.inside along.adds.held (by simpa using still)
  have there : g₂.store.IsDirectory place :=
    along.adds.isDirectory_iff.2 ((along.steady.isDirectory_iff place).2 inside)
  exact kindAt_of_locate (arrived₂.locate_child fits step within) there

/-- A link for whose name there is no header, by way of which no other link leads, changes nothing
for a run that returns without it, unless the walk comes to it when it cannot be followed. Then the
run ends there. A link to a directory can always be followed. -/
theorem run_beside_link {tally : Tally} (target : Text) (tree : s.IsTree)
    (inside : s.IsDirectory directory) (free : s.get? (directory ++ [name]) = none)
    (unregistered : c.registry.get? (Relative.extension name.text) = none)
    (lasting : ¬ temporaryEnding <:+ name.text) (untrodden : s.Untrodden directory name)
    (ran : run c refusals ⟨s, []⟩ = .ok tally g) :
    match run c refusals ⟨s.put (directory ++ [name]) (.link target), []⟩ with
    | .ok tally₂ g₂ => tally₂ = tally ∧ g₂.journal = g.journal ∧
        Adds g.store g₂.store (directory ++ [name]) target
    | .error fault g₂ => ∃ home names cause, s.locate c.root = .ok home ∧ directory = home ++ names ∧
        cause ≠ .notFound ∧ g₂.store.kindAt (c.root.below (names ++ [name])) = .error cause ∧
        fault = .system (.ofCause cause (Path.behind (c.root.below names).toText name.text)) ∧
        g₂.journal <+: g.journal ∧
        g₂.store.get? (directory ++ [name]) = some (.link target) ∧
        (s.put (directory ++ [name]) (.link target)).kindAt (c.root.below (names ++ [name])) ≠
          .ok .directory := by
  have adds := adds_put free target
  have uninvolved : Uninvolved s c directory name :=
    ⟨tree, inside, unregistered, lasting, untrodden⟩
  rw [run_apply] at ran ⊢
  split at ran
  case h_2 => cases ran
  case h_1 outcomes between walked =>
  obtain ⟨home, found, here⟩ := locate_of_visit walked
  rw [Path.below_nil] at found
  obtain ⟨spent, reached⟩ := reaches_of_locate found here
  have along : Alongside s (directory ++ [name]) target ⟨s, []⟩
      ⟨s.put (directory ++ [name]) (.link target), []⟩ := ⟨⟨rfl, adds⟩, .refl s⟩
  have ends := uninvolved.visit reached (descends_nil.2 here) _ along walked
  dsimp only
  rw [directoryCount_put_link (by simp) free]
  generalize visit c.excludes (settle c refusals) (s.directoryCount + 1) (c.root.below [])
    (relative []) ⟨s.put (directory ++ [name]) (.link target), []⟩ = result at ends ⊢
  cases ran
  cases result with
  | ok outcomes₂ g₂ =>
    obtain ⟨same, along⟩ := ends
    exact ⟨by rw [same], by rw [same, along.journal], along.adds⟩
  | error fault g₂ =>
    obtain ⟨⟨names, cause, mid, rfl, down, other, along, lost, rfl⟩, begins⟩ := ends
    refine ⟨home, names, cause, found, rfl, other, lost, rfl, begins.trans (List.prefix_append _ _),
      along.adds.held, ?_⟩
    intro first
    rw [Path.below_concat] at first lost
    rw [along.kindAt_directory adds (reached.below down) first] at lost
    cases lost

theorem untrodden_of_nodes (plain : s.nodes.all fun
      | (_, .link target) => .into name.text ∉ linkSteps target
      | _ => true) : s.Untrodden directory name := by
  intro place other target held treads
  obtain ⟨before, _, begins, _⟩ := treads
  have apart := List.all_eq_true.1 plain _ (mem_of_get? (by simp) held)
  exact of_decide_eq_true apart (begins.subset (by simp))

theorem run_beside_link_linkedFile :
    let s := linkedFile ⟨"a.c", by decide⟩ ⟨"b.c", by decide⟩
    let name : Name := ⟨"l.md", by decide⟩
    ∃ g g₂, run licenseOnly (fun _ => none) ⟨s, []⟩ = .ok ⟨1, 1, ["a.c"], []⟩ g ∧
      run licenseOnly (fun _ => none) ⟨s.put [name] (.link "b.c"), []⟩ =
        .ok ⟨1, 1, ["a.c"], []⟩ g₂ ∧
      g₂.journal = g.journal ∧ Adds g.store g₂.store [name] "b.c" := by
  intro s name
  obtain ⟨g, ran⟩ : ∃ g, run licenseOnly (fun _ => none) ⟨s, []⟩ = .ok ⟨1, 1, ["a.c"], []⟩ g :=
    ⟨Job.progressOf (run licenseOnly (fun _ => none) ⟨s, []⟩), by decide +kernel⟩
  obtain ⟨g₂, ran₂⟩ : ∃ g₂, run licenseOnly (fun _ => none) ⟨s.put [name] (.link "b.c"), []⟩ =
      .ok ⟨1, 1, ["a.c"], []⟩ g₂ :=
    ⟨Job.progressOf (run licenseOnly (fun _ => none) ⟨s.put [name] (.link "b.c"), []⟩),
      by decide +kernel⟩
  have free : s.get? ([] ++ [name]) = none := by decide
  have unregistered : licenseOnly.registry.get? (Relative.extension name.text) = none := by
    decide +kernel
  have lasting : ¬ temporaryEnding <:+ name.text := by decide
  have untrodden : s.Untrodden [] name := untrodden_of_nodes (by decide +kernel)
  have tree : s.IsTree := isTree_of_nodes (by decide)
  clear_value s name
  have alike := run_beside_link "b.c" tree s.root_isDirectory free unregistered lasting untrodden ran
  rw [List.nil_append, ran₂] at alike
  exact ⟨g, g₂, ran, ran₂, alike.2⟩

/-- A link to itself, or one that goes through a file, ends a run that returns without it. -/
theorem run_not_beside_stuck_link :
    let s := linkedFile ⟨"a.c", by decide⟩ ⟨"b.c", by decide⟩
    let name : Name := ⟨"l.md", by decide⟩
    let returned := run licenseOnly (fun _ => none) ⟨s, []⟩
    let looping := run licenseOnly (fun _ => none) ⟨s.put [name] (.link "l.md"), []⟩
    let through := run licenseOnly (fun _ => none) ⟨s.put [name] (.link "a.c/x"), []⟩
    s.IsTree ∧ s.get? [name] = none ∧ licenseOnly.header? name.text = none ∧
      ¬ temporaryEnding <:+ name.text ∧ s.Untrodden [] name ∧
      returned = .ok ⟨1, 1, ["a.c"], []⟩ (Job.progressOf returned) ∧
      looping = .error (.system (.ofCause .tooManyLinks "./l.md")) (Job.progressOf looping) ∧
      through = .error (.system (.ofCause .notADirectory "./l.md")) (Job.progressOf through) := by
  refine ⟨isTree_of_nodes (by decide), by decide, by decide +kernel, by decide,
    untrodden_of_nodes (by decide +kernel), ?_⟩
  decide +kernel

end Insertion

end LicenseHeaders
