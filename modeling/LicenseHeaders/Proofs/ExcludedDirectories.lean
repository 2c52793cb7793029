import LicenseHeaders.Proofs.SimilarDirectories
import LicenseHeaders.Proofs.WalkAsBatch
import LicenseHeaders.Proofs.SecondRun

/-!
Excluded directories. Two runs of one configuration that start from stores with different things in
excluded directories go in step: they list the same directories and read the same files, write the
same journal, and come to the same end. Neither looks or reaches into an excluded directory.
-/
namespace LicenseHeaders.Insertion
open Store Traversal

/-- Strictly inside an excluded directory below the root that is a directory in both stores. -/
def Concealed (s₁ s₂ : Store) (c : Config) (place : Location) : Prop :=
  ∃ home names more, s₁.locate c.root = .ok home ∧ names ≠ [] ∧ c.excludes (relative names) = true ∧
    s₁.IsDirectory (home ++ names) ∧ s₂.IsDirectory (home ++ names) ∧ more ≠ [] ∧
    place = home ++ names ++ more

structure Parallel (s₁ s₂ : Store) (c : Config) (g₁ g₂ : Progress) : Prop where
  journal : g₂.journal = g₁.journal
  first : Kindred s₁ g₁.store
  second : Kindred s₂ g₂.store
  outside : ∀ place, ¬ Concealed s₁ s₂ c place → g₂.store.get? place = g₁.store.get? place
  inside : ∀ place, Concealed s₁ s₂ c place →
    g₁.store.get? place = s₁.get? place ∧ g₂.store.get? place = s₂.get? place

variable {s₁ s₂ : Store} {c : Config} {refusals : Refusals} {g₁ g₂ : Progress}

namespace Parallel

theorem start (agree : ∀ place, ¬ Concealed s₁ s₂ c place → s₂.get? place = s₁.get? place)
    (journal : Journal) : Parallel s₁ s₂ c ⟨s₁, journal⟩ ⟨s₂, journal⟩ :=
  ⟨rfl, .refl s₁, .refl s₂, agree, fun _ _ => ⟨rfl, rfl⟩⟩

theorem record (h : Parallel s₁ s₂ c g₁ g₂) (event : Event) :
    Parallel s₁ s₂ c { g₁ with journal := g₁.journal ++ [event] }
      { g₂ with journal := g₂.journal ++ [event] } :=
  ⟨by simp [h.journal], h.first, h.second, h.outside, h.inside⟩

section Change

variable {place : Location} (h : Parallel s₁ s₂ c g₁ g₂) (visible : ¬ Concealed s₁ s₂ c place)
include h visible

theorem vacant_iff : g₂.store.Vacant place ↔ g₁.store.Vacant place := by
  rw [Vacant, h.outside place visible, Vacant]

theorem changed {t₁ t₂ : Store} (first : Kindred s₁ t₁) (second : Kindred s₂ t₂)
    (here : t₂.get? place = t₁.get? place)
    (away₁ : ∀ other, other ≠ place → t₁.get? other = g₁.store.get? other)
    (away₂ : ∀ other, other ≠ place → t₂.get? other = g₂.store.get? other) :
    Parallel s₁ s₂ c { g₁ with store := t₁ } { g₂ with store := t₂ } := by
  refine ⟨h.journal, first, second, ?_, ?_⟩
  · intro other open_
    by_cases same : other = place
    · rw [same, here]
    · rw [away₁ other same, away₂ other same, h.outside other open_]
  · intro other concealed
    have apart : other ≠ place := by
      intro same
      exact visible (same ▸ concealed)
    rw [away₁ other apart, away₂ other apart]
    exact h.inside other concealed

variable (vacant : g₁.store.Vacant place)
include vacant

theorem put (contents : Bytes) :
    Parallel s₁ s₂ c { g₁ with store := g₁.store.put place (.file contents) }
      { g₂ with store := g₂.store.put place (.file contents) } := by
  have below := not_root vacant.not_isDirectory
  have vacant' := (h.vacant_iff visible).2 vacant
  refine h.changed visible (h.first.put vacant contents) (h.second.put vacant' contents) ?_ ?_ ?_
  · rw [get?_put _ _ _ _ below, get?_put _ _ _ _ below, if_pos rfl, if_pos rfl]
  · intro other away
    rw [get?_put _ _ _ _ below, if_neg away]
  · intro other away
    rw [get?_put _ _ _ _ below, if_neg away]

theorem erase :
    Parallel s₁ s₂ c { g₁ with store := g₁.store.erase place }
      { g₂ with store := g₂.store.erase place } := by
  have below := not_root vacant.not_isDirectory
  have vacant' := (h.vacant_iff visible).2 vacant
  refine h.changed visible (h.first.erase vacant) (h.second.erase vacant') ?_ ?_ ?_
  · rw [get?_erase _ _ _ below, get?_erase _ _ _ below, if_pos rfl, if_pos rfl]
  · intro other away
    rw [get?_erase _ _ _ below, if_neg away]
  · intro other away
    rw [get?_erase _ _ _ below, if_neg away]

end Change

end Parallel

/-- Both have come equally far, with the same answer or with the same fault. -/
def EndAlike {α : Type} (s₁ s₂ : Store) (c : Config) :
    EStateM.Result Fault Progress α → EStateM.Result Fault Progress α → Prop
  | .ok a g₁, .ok b g₂ => a = b ∧ Parallel s₁ s₂ c g₁ g₂
  | .error fault g₁, .error fault' g₂ => fault = fault' ∧ Parallel s₁ s₂ c g₁ g₂
  | _, _ => False

def returns {α : Type} : EStateM.Result Fault Progress α → Bool
  | .ok _ _ => true
  | .error _ _ => false

theorem not_endAlike {α : Type} {result result' : EStateM.Result Fault Progress α}
    (ok : returns result = true) (fails : returns result' = false) :
    ¬ EndAlike s₁ s₂ c result result' := by
  intro alike
  cases result with
  | error => cases ok
  | ok =>
    cases result' with
    | ok => cases fails
    | error => exact alike

/-- Jobs that end alike wherever they start alike. -/
def InStep {α : Type} (s₁ s₂ : Store) (c : Config) (first second : Job α) : Prop :=
  ∀ g₁ g₂, Parallel s₁ s₂ c g₁ g₂ → EndAlike s₁ s₂ c (first g₁) (second g₂)

abbrev Blind {α : Type} (s₁ s₂ : Store) (c : Config) (job : Job α) : Prop := InStep s₁ s₂ c job job

section InStep

variable {α β : Type}

theorem blind_pure (a : α) : Blind s₁ s₂ c (pure a) := fun _ _ parallel => ⟨rfl, parallel⟩

theorem blind_record (event : Event) : Blind s₁ s₂ c (Job.record event) :=
  fun _ _ parallel => ⟨rfl, parallel.record event⟩

theorem EndAlike.bind {x y : Job α} {f f' : α → Job β}
    (first : EndAlike s₁ s₂ c (x g₁) (y g₂))
    (goesOn : ∀ a g₁' g₂', x g₁ = .ok a g₁' → Parallel s₁ s₂ c g₁' g₂' →
      EndAlike s₁ s₂ c (f a g₁') (f' a g₂')) :
    EndAlike s₁ s₂ c ((x >>= f) g₁) ((y >>= f') g₂) := by
  rw [Job.bind_apply, Job.bind_apply]
  generalize y g₂ = result' at first ⊢
  cases result : x g₁ with
  | ok a g₁' =>
    rw [result] at first
    cases result' with
    | ok b g₂' =>
      obtain ⟨rfl, parallel⟩ := first
      exact goesOn a g₁' g₂' result parallel
    | error => exact first.elim
  | error fault g₁' =>
    rw [result] at first
    cases result' with
    | ok => exact first.elim
    | error => exact first

theorem InStep.bind {x y : Job α} {f f' : α → Job β} (h : InStep s₁ s₂ c x y)
    (goesOn : ∀ a, InStep s₁ s₂ c (f a) (f' a)) : InStep s₁ s₂ c (x >>= f) (y >>= f') := by
  intro g₁ g₂ parallel
  refine (h g₁ g₂ parallel).bind ?_
  intro a g₁' g₂' _ parallel'
  exact goesOn a g₁' g₂' parallel'

end InStep

/-- The root leads to one directory in both stores, and they agree outside the excluded ones. -/
structure Scene (s₁ s₂ : Store) (c : Config) (home : Location) : Prop where
  found : s₁.locate c.root = .ok home
  reached : ∃ spent, Reaches s₁ c.root spent home
  reached' : ∃ spent, Reaches s₂ c.root spent home
  noLinks : ∀ place target, s₁.get? place ≠ some (.link target)
  agree : ∀ place, ¬ Concealed s₁ s₂ c place → s₂.get? place = s₁.get? place

namespace Scene

variable {home names : Location} (h : Scene s₁ s₂ c home) (listed : Listed s₁ c home names)
include h listed

theorem visible (name : Name) : ¬ Concealed s₁ s₂ c (home ++ names ++ [name]) := by
  intro concealed
  obtain ⟨home', above, more, found, some, excluded, _, _, below, same⟩ := concealed
  rw [h.found] at found
  cases found
  have eq := List.append_cancel_left ((List.append_assoc ..).symm.trans
    (same.trans (List.append_assoc ..)))
  obtain ⟨rest, last, rfl⟩ : ∃ rest last, more = rest ++ [last] :=
    ⟨_, _, (List.dropLast_concat_getLast below).symm⟩
  rw [← List.append_assoc] at eq
  obtain ⟨rfl, _⟩ := List.append_inj' eq rfl
  have included := listed.2 above (List.prefix_append _ _) some
  rw [excluded] at included
  cases included

theorem descends : s₂.Descends home names := by
  intro upper before
  have inside := listed.1 upper before
  rcases List.eq_nil_or_concat' upper with empty | ⟨above, name, rfl⟩
  · subst empty
    obtain ⟨_, reached'⟩ := h.reached'
    rw [List.append_nil]
    exact reached'.inside
  · have under := (List.prefix_append above [name]).trans before
    have listed' : Listed s₁ c home above :=
      ⟨fun upper before => listed.1 upper (before.trans under),
        fun upper before => listed.2 upper (before.trans under)⟩
    rw [← List.append_assoc] at inside ⊢
    rw [IsDirectory, h.agree _ (h.visible listed' name)]
    exact inside

theorem twins (parallel : Parallel s₁ s₂ c g₁ g₂) :
    Twins g₁.store g₂.store (c.root.below names) (home ++ names) := by
  obtain ⟨spent, reached⟩ := h.reached
  obtain ⟨spent', reached'⟩ := h.reached'
  refine ⟨⟨spent, parallel.first.reaches (reached.below listed.1)⟩,
    ⟨spent', parallel.second.reaches (reached'.below (h.descends listed))⟩, ?_, ?_⟩
  · intro name
    exact parallel.first.noLinks h.noLinks _
  · intro name
    exact parallel.outside _ (h.visible listed name)

theorem list : Blind s₁ s₂ c (Job.list (c.root.below names)) := by
  intro g₁ g₂ parallel
  rw [Job.list_apply, Job.list_apply, (h.twins listed parallel).list]
  split
  · exact ⟨rfl, parallel⟩
  · cases g₁.store.list (c.root.below names) with
    | error cause => exact ⟨rfl, parallel⟩
    | ok answer => exact ⟨rfl, parallel.record (.listed answer.1)⟩

theorem read (name : Name) : Blind s₁ s₂ c (readSource (c.root.below (names ++ [name]))) := by
  refine InStep.bind ?_ fun _ => blind_pure _
  intro g₁ g₂ parallel
  rw [Path.below_concat, Job.read_apply, Job.read_apply,
    (h.twins listed parallel).read (Step.ofPart_name name)]
  split
  · exact ⟨rfl, parallel⟩
  · cases g₁.store.read ((c.root.below names).child name.text) with
    | error cause => exact ⟨rfl, parallel⟩
    | ok contents => exact ⟨rfl, parallel⟩

theorem moveOver (source target : Name) :
    Blind s₁ s₂ c (Insertion.moveOver refusals ((c.root.below names).child source.text)
      ((c.root.below names).child target.text)) := by
  intro g₁ g₂ parallel
  unfold Insertion.moveOver
  cases refusals ((c.root.below names).child target.text).toText with
  | some refusal => exact ⟨rfl, parallel⟩
  | none =>
    simp only [Job.bind_apply, Job.store_apply]
    rcases (h.twins listed parallel).move source target with
      ⟨cause, refused, refused'⟩ | ⟨contents, file, vacant, done, done'⟩
    · rw [refused, refused']
      exact ⟨rfl, parallel⟩
    · rw [done, done']
      have old : g₁.store.Vacant (home ++ names ++ [source]) := .inr ⟨contents, file⟩
      have erased := parallel.erase (h.visible listed source) old
      have new : (g₁.store.erase (home ++ names ++ [source])).Vacant
          (home ++ names ++ [target]) := by
        rw [Vacant, get?_erase _ _ _ (by simp)]
        split
        · exact .inl rfl
        · exact vacant
      have moved := erased.put (h.visible listed target) new contents
      exact ⟨rfl, moved.record (.moved _ _)⟩

theorem replace (name : Name) (content : SourceText) :
    Blind s₁ s₂ c (Insertion.replace refusals (c.root.below (names ++ [name])) content) := by
  rw [Path.below_concat]
  unfold Insertion.replace
  rw [Path.beside?_child]
  intro g₁ g₂ parallel
  simp only [Job.bind_apply, Job.write_apply]
  by_cases null : '\x00' ∈ ((c.root.below names).child (name.text ++ temporaryEnding)).toText
  · simp only [null, if_true]
    exact ⟨rfl, parallel⟩
  · simp only [null, if_false]
    rcases (h.twins listed parallel).write (Step.ofPart_temporary name) content.toBytes with
      ⟨cause, refused, refused'⟩ | ⟨longer, text, vacant, done, done'⟩
    · rw [refused, refused']
      exact ⟨rfl, parallel⟩
    · rw [done, done', ← text]
      have written := parallel.put (h.visible listed longer) vacant content.toBytes
      exact h.moveOver listed longer name _ _ (written.record (.wrote _ _))

theorem process (name : Name) (rel : Text) (header : Header) :
    Blind s₁ s₂ c (Insertion.process c refusals (c.root.below (names ++ [name])) rel header) := by
  unfold Insertion.process
  refine InStep.bind (h.read listed name) fun content => ?_
  split
  · exact blind_pure _
  · split
    · exact blind_pure _
    · refine InStep.bind (h.replace listed name _) fun failure => ?_
      cases failure with
      | none => exact .bind (blind_record _) fun _ => blind_pure _
      | some failure => exact .bind (blind_record _) fun _ => blind_pure _

theorem settle (name : Name) :
    Blind s₁ s₂ c (Insertion.settle c refusals (c.root.below (names ++ [name]))
      (relative (names ++ [name]))) := by
  unfold Insertion.settle
  split
  · exact blind_pure _
  · exact .bind (h.process listed name _ _) fun _ => .bind (blind_record _) fun _ => blind_pure _

variable {enter enter' : Path → Text → Job (List (Option Outcome))}

theorem visitEntry (entry : Entry) (plain : entry.kind ≠ .link)
    (entered : entry.kind = .directory → c.excludes (relative (names ++ [entry.name])) = false →
      InStep s₁ s₂ c
        (enter (c.root.below (names ++ [entry.name])) (relative (names ++ [entry.name])))
        (enter' (c.root.below (names ++ [entry.name])) (relative (names ++ [entry.name])))) :
    InStep s₁ s₂ c
      (Traversal.visitEntry c.excludes (Insertion.settle c refusals) enter (c.root.below names)
        (relative names) entry)
      (Traversal.visitEntry c.excludes (Insertion.settle c refusals) enter' (c.root.below names)
        (relative names) entry) := by
  obtain ⟨name, kind⟩ := entry
  unfold Traversal.visitEntry
  rw [← Path.below_concat, ← relative_concat]
  cases kind with
  | link => exact absurd rfl plain
  | file => exact .bind (h.settle listed name) fun _ => blind_pure _
  | directory =>
    dsimp only
    split
    · exact .bind (blind_record _) fun _ => blind_pure _
    · rename_i included
      exact entered rfl (by simpa using included)

theorem visitEntries (entries : List Entry) (plain : ∀ entry ∈ entries, entry.kind ≠ .link)
    (entered : ∀ entry ∈ entries, entry.kind = .directory →
      c.excludes (relative (names ++ [entry.name])) = false →
      InStep s₁ s₂ c
        (enter (c.root.below (names ++ [entry.name])) (relative (names ++ [entry.name])))
        (enter' (c.root.below (names ++ [entry.name])) (relative (names ++ [entry.name])))) :
    InStep s₁ s₂ c
      (Traversal.visitEntries c.excludes (Insertion.settle c refusals) enter (c.root.below names)
        (relative names) entries)
      (Traversal.visitEntries c.excludes (Insertion.settle c refusals) enter' (c.root.below names)
        (relative names) entries) := by
  induction entries with
  | nil => exact blind_pure _
  | cons entry rest ih =>
    have later := ih (fun other member => plain other (List.mem_cons_of_mem _ member))
      (fun other member => entered other (List.mem_cons_of_mem _ member))
    refine InStep.bind ?_ fun _ => .bind later fun _ => blind_pure _
    exact h.visitEntry listed entry (plain entry (List.mem_cons_self ..))
      (entered entry (List.mem_cons_self ..))

theorem visit (depth depth' : Nat) (enough : depth + names.length = s₁.directoryCount + 1)
    (enough' : depth' + names.length = s₂.directoryCount + 1) :
    InStep s₁ s₂ c
      (Traversal.visit c.excludes (Insertion.settle c refusals) depth (c.root.below names)
        (relative names))
      (Traversal.visit c.excludes (Insertion.settle c refusals) depth' (c.root.below names)
        (relative names)) := by
  induction depth generalizing names depth' with
  | zero =>
    have bounded := listed.1.length_le
    omega
  | succ depth ih =>
  cases depth' with
  | zero =>
    have bounded := (h.descends listed).length_le
    omega
  | succ depth' =>
  intro g₁ g₂ parallel
  rw [Traversal.visit, Traversal.visit]
  refine (h.list listed g₁ g₂ parallel).bind ?_
  intro entries g₁' g₂' now parallel'
  obtain ⟨spent, reached⟩ := h.reached
  obtain ⟨place, located, inside, rfl, _⟩ := Job.list_eq_ok now
  obtain ⟨_, arrived⟩ := reaches_of_locate located inside
  obtain ⟨_, rfl⟩ := arrived.unique (parallel.first.reaches (reached.below listed.1))
  refine h.visitEntries listed _ ?_ ?_ g₁' g₂' parallel'
  · intro entry member link
    obtain ⟨node, held, kind⟩ := mem_entriesIn.1 member
    cases node with
    | file | directory =>
      rw [link] at kind
      cases kind
    | link target => exact parallel.first.noLinks h.noLinks _ target held
  · intro entry member directory included
    obtain ⟨node, held, kind⟩ := mem_entriesIn.1 member
    have inside : g₁.store.IsDirectory (home ++ names ++ [entry.name]) := by
      cases node with
      | directory => exact held
      | file | link =>
        rw [directory] at kind
        cases kind
    have listed' : Listed s₁ c home (names ++ [entry.name]) :=
      listed.concat (parallel.first.isDirectory_iff.1 inside) included
    refine ih listed' depth' ?_ ?_
    · rw [List.length_append, List.length_singleton]
      omega
    · rw [List.length_append, List.length_singleton]
      omega

end Scene

theorem run_of_scene {home : Location} (h : Scene s₁ s₂ c home) (inside : s₁.IsDirectory home) :
    EndAlike s₁ s₂ c (run c refusals ⟨s₁, []⟩) (run c refusals ⟨s₂, []⟩) := by
  have walked : EndAlike s₁ s₂ c
      (visit c.excludes (settle c refusals) (s₁.directoryCount + 1) (c.root.below []) (relative [])
        ⟨s₁, []⟩)
      (visit c.excludes (settle c refusals) (s₂.directoryCount + 1) (c.root.below []) (relative [])
        ⟨s₂, []⟩) :=
    h.visit (listed_nil inside) _ _ rfl rfl _ _ (.start h.agree [])
  rw [run_apply, run_apply]
  dsimp only
  generalize visit c.excludes (settle c refusals) (s₁.directoryCount + 1) (c.root.below [])
    (relative []) ⟨s₁, []⟩ = result at walked ⊢
  generalize visit c.excludes (settle c refusals) (s₂.directoryCount + 1) (c.root.below [])
    (relative []) ⟨s₂, []⟩ = result' at walked ⊢
  cases result with
  | ok outcomes g₁ =>
    cases result' with
    | ok outcomes' g₂ =>
      obtain ⟨rfl, parallel⟩ := walked
      exact ⟨rfl, parallel.record _⟩
    | error => exact walked.elim
  | error fault g₁ =>
    cases result' with
    | ok => exact walked.elim
    | error => exact walked

theorem not_concealed {home place : Location} (found : s₁.locate c.root = .ok home)
    (above : place <+: home) : ¬ Concealed s₁ s₂ c place := by
  intro concealed
  obtain ⟨home', names, more, found', some, _, _, _, _, rfl⟩ := concealed
  rw [found] at found'
  cases found'
  have longer := above.length_le
  have names := List.length_pos_iff.2 some
  simp only [List.length_append] at longer
  omega

theorem run_of_list_eq_error {s : Store} {cause : Cause} (refused : s.list c.root = .error cause)
    (journal : Journal) : run c refusals ⟨s, journal⟩ =
      .error (if '\x00' ∈ c.root.toText then .nullInPath
        else .system (.ofCause cause c.root.toText)) ⟨s, journal⟩ := by
  rw [run_apply]
  dsimp only
  rw [visit_apply, Path.below_nil, Job.list_apply]
  by_cases null : '\x00' ∈ c.root.toText
  · simp only [null, if_true]
  · simp only [null, if_false, refused]

theorem refused_alike (located : s₂.locate c.root = s₁.locate c.root)
    (agree : ∀ place, ¬ Concealed s₁ s₂ c place → s₂.get? place = s₁.get? place)
    (nowhere : ¬ ∃ home, s₁.locate c.root = .ok home ∧ s₁.IsDirectory home) :
    ∃ cause, s₁.list c.root = .error cause ∧ s₂.list c.root = .error cause := by
  unfold Store.list
  rw [located]
  cases found : s₁.locate c.root with
  | error cause => exact ⟨cause, rfl, rfl⟩
  | ok home =>
    have same := agree home (not_concealed found (List.prefix_refl home))
    simp only [bind, Except.bind, same]
    cases held : s₁.get? home with
    | none => exact ⟨_, rfl, rfl⟩
    | some node =>
      cases node with
      | file | link => exact ⟨_, rfl, rfl⟩
      | directory => exact absurd ⟨home, found, held⟩ nowhere

/-- What excluded directories hold makes no difference to a run: same journal, same end, and stores
that still agree elsewhere. -/
theorem run_blind (s₁ s₂ : Store) (c : Config) (refusals : Refusals)
    (noLinks : ∀ place target, s₁.get? place ≠ some (.link target)) (base : s₂.base = s₁.base)
    (root : ['.', '.'] ∉ c.root.parts ∨ s₂.locate c.root = s₁.locate c.root)
    (agree : ∀ place, ¬ Concealed s₁ s₂ c place → s₂.get? place = s₁.get? place) :
    EndAlike s₁ s₂ c (run c refusals ⟨s₁, []⟩) (run c refusals ⟨s₂, []⟩) := by
  have located : s₂.locate c.root = s₁.locate c.root := by
    rcases root with noUp | same
    · apply locate_congr noLinks noUp base
      intro place above
      apply agree
      intro concealed
      obtain ⟨home, _, _, found, _⟩ := id concealed
      exact not_concealed found (above home found) concealed
    · exact same
  by_cases there : ∃ home, s₁.locate c.root = .ok home ∧ s₁.IsDirectory home
  · obtain ⟨home, found, inside⟩ := there
    have inside' : s₂.IsDirectory home :=
      (agree home (not_concealed found (List.prefix_refl home))).trans inside
    have scene : Scene s₁ s₂ c home :=
      ⟨found, reaches_of_locate found inside, reaches_of_locate (located.trans found) inside',
        noLinks, agree⟩
    exact run_of_scene scene inside
  · obtain ⟨cause, refused, refused'⟩ := refused_alike located agree there
    rw [run_of_list_eq_error refused, run_of_list_eq_error refused']
    exact ⟨rfl, .start agree []⟩

theorem isName_source : IsName "a.c" := by decide

def besideExcluded (inner : List (Location × Node)) : Store where
  base := []
  nodes := ([⟨"a.c", isName_source⟩], .file [97]) :: ([⟨"_x", by decide⟩], .directory) :: inner

def excludingDraft (root : Text) : Draft :=
  { root := .ofText root, license := "H", excluded := ["_x"] }

theorem besideExcluded_agree (root : Text) (inner inner' : List (Location × Node))
    (found : (besideExcluded inner).locate (.ofText root) = .ok [])
    (within : ∀ entry ∈ inner ++ inner', ∃ name more, entry.1 = ⟨"_x", by decide⟩ :: name :: more)
    (place : Location)
    (visible : ¬ Concealed (besideExcluded inner) (besideExcluded inner')
      (.ofDraft (excludingDraft root)) place) :
    (besideExcluded inner').get? place = (besideExcluded inner).get? place := by
  have excluded : Beginning.matchesAny ([['_', 'x']].map Beginning.normal)
      (relative [⟨"_x", by decide⟩]) = true := by decide
  have inside : ∀ nodes, (besideExcluded nodes).IsDirectory [⟨"_x", by decide⟩] := fun _ => rfl
  have apart : ∀ entry ∈ inner ++ inner', place ≠ entry.1 := by
    intro entry member same
    obtain ⟨name, more, below⟩ := within entry member
    exact visible ⟨[], [⟨"_x", by decide⟩], name :: more, found, by simp, excluded, inside _,
      inside _, by simp, same.trans below⟩
  have missing : ∀ nodes, nodes ⊆ inner ++ inner' → nodes.lookup place = none := by
    intro nodes among
    rw [List.lookup_eq_none_iff]
    intro entry member
    simpa using apart entry (among member)
  simp only [besideExcluded, Store.get?, Store.lookup_cons,
    missing inner (List.subset_append_left _ _), missing inner' (List.subset_append_right _ _)]

theorem run_blind_besideExcluded :
    let inner : List (Location × Node) := [([⟨"_x", by decide⟩, ⟨"b.c", by decide⟩], .file [98])]
    let s := besideExcluded inner
    let s' := besideExcluded []
    let c := Config.ofDraft (excludingDraft ".")
    s ≠ s' ∧ EndAlike s s' c (run c (fun _ => none) ⟨s, []⟩) (run c (fun _ => none) ⟨s', []⟩) := by
  intro inner s s' c
  refine ⟨by decide, run_blind s s' c (fun _ => none) ?_ rfl (.inl (by decide)) ?_⟩
  · exact noLinks_of_nodes (by decide)
  · have found : s.locate (.ofText ".") = .ok [] := by decide +kernel
    have within : ∀ entry ∈ inner ++ [], ∃ name more,
        entry.1 = ⟨"_x", by decide⟩ :: name :: more := by
      intro entry member
      rw [List.append_nil] at member
      obtain rfl := List.mem_singleton.1 member
      exact ⟨⟨"b.c", by decide⟩, [], rfl⟩
    exact besideExcluded_agree "." inner [] found within

/-- A root that goes through an excluded directory and back leads nowhere without it. -/
theorem run_not_blind_through_excluded :
    let inner : List (Location × Node) := [([⟨"_x", by decide⟩, ⟨"d", by decide⟩], .directory)]
    let s := besideExcluded inner
    let s' := besideExcluded []
    let c := Config.ofDraft (excludingDraft "_x/d/../..")
    (∀ place target, s.get? place ≠ some (.link target)) ∧
      (∀ place target, s'.get? place ≠ some (.link target)) ∧ s'.base = s.base ∧
      (∀ place, ¬ Concealed s s' c place → s'.get? place = s.get? place) ∧
      ¬ EndAlike s s' c (run c (fun _ => none) ⟨s, []⟩) (run c (fun _ => none) ⟨s', []⟩) := by
  intro inner s s' c
  refine ⟨noLinks_of_nodes (by decide), noLinks_of_nodes (by decide), rfl, ?_, ?_⟩
  · have found : s.locate (.ofText "_x/d/../..") = .ok [] := by decide +kernel
    have within : ∀ entry ∈ inner ++ [], ∃ name more,
        entry.1 = ⟨"_x", by decide⟩ :: name :: more := by
      intro entry member
      rw [List.append_nil] at member
      obtain rfl := List.mem_singleton.1 member
      exact ⟨⟨"d", by decide⟩, [], rfl⟩
    exact besideExcluded_agree "_x/d/../.." inner [] found within
  · have ok : returns (run c (fun _ => none) ⟨s, []⟩) = true := by decide +kernel
    have fails : returns (run c (fun _ => none) ⟨s', []⟩) = false := by decide +kernel
    exact not_endAlike ok fails

end LicenseHeaders.Insertion
